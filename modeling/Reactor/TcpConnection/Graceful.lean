import Reactor.TcpConnection.Milestones
import Reactor.TcpConnection.Output
import Reactor.TcpConnection.Progress

/-!
# A shutdown with output behind it

`shutdownInLoop` shuts the reading side of the socket down at once, whatever the output
buffer holds. The socket then polls readable and reads nothing, `handleRead` closes the
connection, and no writable event is dispatched any more. So the bytes that were stored
before the shutdown are delivered exactly if they have left the buffer when the connection
is closed. That is so by their number; the bytes themselves are never delivered, since what
`writev` is handed lies behind them.
-/

namespace Reactor

open Transition

namespace TcpConnection

/-- A step of the loop, with the milestones passed so far kept beside the connection. -/
def tracedStep : Milestones × TcpConnection → LoopOp →
    Except ConnectionFault (Milestones × TcpConnection)
  | (passed, conn), op =>
    (conn.loopStep op).map fun conn' => (passed ++ conn.loopMilestones op, conn')

/-- If the socket was shut down at the first milestone and the connection is closed at the
second, what was sent before the shutdown has been accepted before the close. -/
def DeliveredBefore (m m' : Milestone × TcpConnection) : Prop :=
  m.1 = .shutdown → m'.1 = .close → m.2.messages.length ≤ m'.2.transmitted.length

instance (m m' : Milestone × TcpConnection) : Decidable (DeliveredBefore m m') :=
  inferInstanceAs (Decidable (m.1 = .shutdown → m'.1 = .close →
    m.2.messages.length ≤ m'.2.transmitted.length))

/-- What has been accepted when the connection is closed begins with the bytes that were sent
before the shutdown. -/
def DeliveredBytes (m m' : Milestone × TcpConnection) : Prop :=
  m.1 = .shutdown → m'.1 = .close → m.2.messages.map some <+: m'.2.transmitted

/-- The bytes sent before a shutdown are accepted, as they are, before the connection is closed. -/
def GracefulBytes (t : Milestones × TcpConnection) (op : LoopOp) : Prop :=
  (t.1 ++ t.2.loopMilestones op).Pairwise DeliveredBytes

/-- All bytes sent before a shutdown are accepted before the connection is closed. -/
def Graceful (t : Milestones × TcpConnection) (op : LoopOp) : Prop :=
  (t.1 ++ t.2.loopMilestones op).Pairwise DeliveredBefore

instance (t : Milestones × TcpConnection) (op : LoopOp) : Decidable (Graceful t op) :=
  inferInstanceAs (Decidable (List.Pairwise _ _))

/-- The event closes the connection: it is an error, or the socket reads nothing. -/
def ClosedBy (conn : TcpConnection) (e : EventInput) : Prop :=
  e.revents.has pollErr = true ∨ e.revents.has pollIn = true ∧
    ∃ inputBuffer, conn.inputBuffer.bufferReadFd e.pending e.socket = .ok (inputBuffer, 0)

instance (conn : TcpConnection) (e : EventInput) : Decidable (conn.ClosedBy e) :=
  decidable_of_iff (e.revents.has pollErr = true ∨ e.revents.has pollIn = true ∧
      (conn.inputBuffer.bufferReadFd e.pending e.socket).map Prod.snd = .ok 0)
    (by simp only [ClosedBy, map_eq_ok, Prod.exists, exists_eq_right])

/-- The step closes the connection. -/
def Closes (conn : TcpConnection) : LoopOp → Prop
  | .event e => conn.channel.isNoneEvent = false ∧ conn.ClosedBy e
  | .user _ | .serverLoop => False

instance (conn : TcpConnection) : ∀ op, Decidable (conn.Closes op)
  | .event e => inferInstanceAs (Decidable (conn.channel.isNoneEvent = false ∧ conn.ClosedBy e))
  | .user _ => .isFalse id
  | .serverLoop => .isFalse id

/-- When a step closes the connection, all that the output buffer holds was sent behind
every shutdown. -/
def Drained (t : Milestones × TcpConnection) (op : LoopOp) : Prop :=
  t.2.Closes op → ∀ m ∈ t.1, m.1 = .shutdown →
    m.2.messages.length + t.2.outputBuffer.totalSize ≤ t.2.messages.length

instance (t : Milestones × TcpConnection) (op : LoopOp) : Decidable (Drained t op) :=
  inferInstanceAs (Decidable (t.2.Closes op → ∀ m ∈ t.1, m.1 = .shutdown →
    m.2.messages.length + t.2.outputBuffer.totalSize ≤ t.2.messages.length))

/-- When a step closes the connection, nothing was sent before any shutdown. -/
def Unsent (t : Milestones × TcpConnection) (op : LoopOp) : Prop :=
  t.2.Closes op → ∀ m ∈ t.1, m.1 = .shutdown → m.2.messages = []

/-- The bytes that a step sends and those that are stored before it have a size. -/
def Fits (t : Milestones × TcpConnection) (op : LoopOp) : Prop :=
  t.2.outputBuffer.totalSize + op.bytes < 2 ^ 64

instance (t : Milestones × TcpConnection) (op : LoopOp) : Decidable (Fits t op) :=
  inferInstanceAs (Decidable (_ < _))

section

variable {conn conn' : TcpConnection}

/-! ## Where a connection is closed -/

/-- The milestones of a step that have to do with a close: it comes first, and with the
output as the step finds it. -/
structure ClosesFirst (conn : TcpConnection) (milestones : Milestones) (closed : Prop) : Prop where
  exists_iff : (∃ m ∈ milestones, m.1 = .close) ↔ closed
  transmitted_eq : ∀ m ∈ milestones, m.1 = .close → m.2.transmitted = conn.transmitted
  ordered : milestones.Pairwise fun m m' => m.1 = .shutdown → m'.1 ≠ .close

/-- That a close comes first depends on what has been transmitted. -/
theorem ClosesFirst.congr {ms : Milestones} {closed closed' : Prop}
    (h : ClosesFirst conn ms closed) (htransmitted : conn.transmitted = conn'.transmitted)
    (hiff : closed ↔ closed') : ClosesFirst conn' ms closed' where
  exists_iff := h.exists_iff.trans hiff
  transmitted_eq m hm hclose := (h.transmitted_eq m hm hclose).trans htransmitted
  ordered := h.ordered

/-- Milestones among which there is no close. -/
theorem closesFirst_of_ne {ms : Milestones} {closed : Prop} (hne : ∀ m ∈ ms, m.1 ≠ .close)
    (hclosed : ¬ closed) : ClosesFirst conn ms closed where
  exists_iff := iff_of_false (fun ⟨m, hm, hclose⟩ => hne m hm hclose) hclosed
  transmitted_eq m hm hclose := absurd hclose (hne m hm)
  ordered := List.pairwise_of_forall_mem_list fun _ _ m hm _ => hne m hm

/-- A close, and milestones behind it. -/
theorem ClosesFirst.cons {ms : Milestones} {closed closed' : Prop}
    (h : ClosesFirst conn ms closed) (htransmitted : conn'.transmitted = conn.transmitted)
    (hclosed : closed') : ClosesFirst conn ((.close, conn') :: ms) closed' where
  exists_iff := iff_of_true ⟨_, List.mem_cons_self, rfl⟩ hclosed
  transmitted_eq m hm hclose := by
    rcases List.mem_cons.mp hm with rfl | hm
    · exact htransmitted
    · exact h.transmitted_eq m hm hclose
  ordered := List.pairwise_cons.mpr
    ⟨fun _ _ hshutdown => Milestone.noConfusion hshutdown, h.ordered⟩

/-- Milestones behind all closes. -/
theorem ClosesFirst.append {ms ms' : Milestones} {closed : Prop} (h : ClosesFirst conn ms closed)
    (hne : ∀ m ∈ ms', m.1 ≠ .close) : ClosesFirst conn (ms ++ ms') closed where
  exists_iff := by
    rw [← h.exists_iff]
    constructor
    · rintro ⟨m, hm, hclose⟩
      rcases List.mem_append.mp hm with hm | hm
      · exact ⟨m, hm, hclose⟩
      · exact absurd hclose (hne m hm)
    · rintro ⟨m, hm, hclose⟩
      exact ⟨m, List.mem_append_left _ hm, hclose⟩
  transmitted_eq m hm hclose := by
    rcases List.mem_append.mp hm with hm | hm
    · exact h.transmitted_eq m hm hclose
    · exact absurd hclose (hne m hm)
  ordered := by
    have hrest : ClosesFirst conn ms' False := closesFirst_of_ne hne id
    exact List.pairwise_append.mpr
      ⟨h.ordered, hrest.ordered, fun _ _ m hm _ => hne m hm⟩

/-- No close is among the milestones of a write that is complete. -/
theorem ne_close_writeCompleteMilestones {milestones : TcpConnection → Milestones}
    (hcomplete : ∀ {conn : TcpConnection}, ∀ m ∈ milestones conn, m.1 ≠ .close) :
    ∀ m ∈ conn.writeCompleteMilestones milestones, m.1 ≠ .close := by
  rw [writeCompleteMilestones]
  split
  · exact List.forall_mem_cons.mpr ⟨by simp, hcomplete⟩
  · simp

/-- User code closes no connection. -/
theorem ne_close_codeMilestones (code : UserCode) :
    ∀ m ∈ codeMilestones code conn, m.1 ≠ .close := by
  induction code generalizing conn with
  | done => simp [codeMilestones]
  | send message written complete next ihComplete ihNext =>
    rw [codeMilestones, List.forall_mem_append, forall_milestonesAfter]
    refine ⟨fun m hm => ?_, fun _ _ => ihNext⟩
    obtain ⟨-, conn₁, conn₂, result, -, -, -, hm⟩ := mem_sendMilestones.mp hm
    exact ne_close_writeCompleteMilestones ihComplete m hm
  | shutdown next ih =>
    rw [codeMilestones, List.forall_mem_append]
    refine ⟨?_, ih⟩
    unfold shutdownMilestones
    split <;> simp
  | drain n next ih =>
    rw [codeMilestones, forall_milestonesAfter]
    exact fun _ _ => ih
  | read n next ih =>
    rw [codeMilestones, forall_milestonesAfter]
    exact fun _ _ => ih

/-- A write closes no connection. -/
theorem ne_close_writeMilestones {answer : Option ℕ} {complete : UserCode} :
    ∀ m ∈ conn.writeMilestones answer complete, m.1 ≠ .close := by
  intro m hm
  obtain ⟨-, conn₁, result, -, -, hm⟩ := mem_writeMilestones.mp hm
  exact ne_close_writeCompleteMilestones (fun {_} => ne_close_codeMilestones complete) m hm

/-- Of the milestones of a read only the first can be a close, namely when nothing is read. -/
theorem closesFirst_readMilestones {pending : ℕ} {socket : Option (List UInt8)}
    {onMessage : UserCode} :
    ClosesFirst conn (conn.readMilestones pending socket onMessage)
      (∃ inputBuffer, conn.inputBuffer.bufferReadFd pending socket = .ok (inputBuffer, 0)) := by
  simp only [← liftBuffer_eq_ok]
  rw [readMilestones]
  cases liftBuffer (conn.inputBuffer.bufferReadFd pending socket) with
  | error e => exact closesFirst_of_ne (by simp) (by simp)
  | ok r =>
    obtain ⟨inputBuffer, n⟩ := r
    rw [milestonesAfter_ok]
    dsimp only
    split
    · next hpos =>
      refine closesFirst_of_ne ?_ ?_
      · exact ne_close_codeMilestones onMessage
      · simp only [Except.ok.injEq, Prod.mk.injEq, not_exists, not_and]
        omega
    · next hzero =>
      obtain rfl := Nat.eq_zero_of_not_pos hzero
      have hempty : ClosesFirst conn [] False := closesFirst_of_ne (by simp) id
      exact hempty.cons rfl ⟨inputBuffer, rfl⟩

/-- The part of an event in which the socket is readable, and what comes behind it. -/
theorem closesFirst_readable {e : EventInput} {conn₁ : TcpConnection} {rest : Milestones}
    (htransmitted : conn₁.transmitted = conn.transmitted) (hne : ∀ m ∈ rest, m.1 ≠ .close) :
    ClosesFirst conn
      ((if e.revents.has pollIn then conn₁.readMilestones e.pending e.socket e.onMessage
        else []) ++ rest)
      (e.revents.has pollIn = true ∧ ∃ inputBuffer,
        conn₁.inputBuffer.bufferReadFd e.pending e.socket = .ok (inputBuffer, 0)) := by
  refine ClosesFirst.append ?_ hne
  split
  · next hin => exact closesFirst_readMilestones.congr htransmitted (by rw [and_iff_right hin])
  · next hin => exact closesFirst_of_ne (by simp) fun h => hin h.1

/-- The part in which it is writable. -/
theorem ne_close_writable {e : EventInput} :
    ∀ m ∈ (if e.revents.has pollOut = true then conn.writeMilestones e.written e.onWriteComplete
      else []), m.1 ≠ .close := by
  split
  · exact ne_close_writeMilestones
  · simp

/-- Closing transmits nothing. -/
theorem handleClose_transmitted (hok : conn.handleClose = .ok conn') :
    conn'.transmitted = conn.transmitted := by
  obtain ⟨server, -, hret⟩ := bind_eq_ok.mp hok
  obtain rfl := Except.ok.inj hret
  rfl

/-- An event closes the connection before anything else is done. -/
theorem closesFirst_eventMilestones {e : EventInput} :
    ClosesFirst conn (conn.eventMilestones e) (conn.ClosedBy e) := by
  obtain ⟨conn₀, hconn₀, htransmitted, hinput⟩ : ∃ conn₀, conn₀ =
      (if e.revents.has pollHup = true then
        handleError { conn with channel := { conn.channel with revents := e.revents } }
      else { conn with channel := { conn.channel with revents := e.revents } }) ∧
      conn₀.transmitted = conn.transmitted ∧ conn₀.inputBuffer = conn.inputBuffer := by
    refine ⟨_, rfl, ?_, ?_⟩
    · split <;> rfl
    · split <;> rfl
  rw [eventMilestones]
  dsimp only
  rw [← hconn₀]
  by_cases herror : e.revents.has pollErr = true
  · simp only [if_pos herror, List.singleton_append]
    cases hclose : conn₀.handleClose with
    | error fault =>
      have hempty : ClosesFirst conn [] False := closesFirst_of_ne (by simp) id
      exact hempty.cons htransmitted (.inl herror)
    | ok conn₁ =>
      have hsame := handleClose_transmitted hclose
      rw [milestonesAfter_ok]
      refine (closesFirst_readable (hsame.trans htransmitted) ?_).cons htransmitted (.inl herror)
      exact forall_milestonesAfter.mpr fun _ _ => ne_close_writable
  · simp only [if_neg herror, List.nil_append, milestonesAfter_ok]
    refine (closesFirst_readable htransmitted ?_).congr rfl ?_
    · exact forall_milestonesAfter.mpr fun _ _ => ne_close_writable
    · rw [ClosedBy, or_iff_right herror, hinput]

/-- The closes of a step come first, and are those of events. -/
theorem closesFirst_loopMilestones {op : LoopOp} :
    ClosesFirst conn (conn.loopMilestones op) (conn.Closes op) := by
  cases op with
  | event e =>
    rw [loopMilestones, Closes]
    split
    · next hnone => exact closesFirst_of_ne (by simp) fun h => by simp [hnone] at h
    · next hsome =>
      refine closesFirst_eventMilestones.congr rfl ?_
      rw [and_iff_right (Bool.not_eq_true _ ▸ hsome)]
  | user code => exact closesFirst_of_ne (ne_close_codeMilestones code) id
  | serverLoop => exact closesFirst_of_ne (by simp [loopMilestones]) id

/-! ## Runs -/

/-- What holds of a shutdown and a later close: the closes of a step come before its shutdowns,
so that it is a matter of the shutdowns before the step. -/
theorem pairwise_milestones_iff {t : Milestones × TcpConnection} {op : LoopOp}
    {P : Milestone × TcpConnection → Milestone × TcpConnection → Prop}
    (hpassed : t.1.Pairwise fun m m' => m.1 = .shutdown → m'.1 = .close → P m m') :
    ((t.1 ++ t.2.loopMilestones op).Pairwise fun m m' => m.1 = .shutdown → m'.1 = .close → P m m') ↔
      ∀ m ∈ t.1, m.1 = .shutdown → ∀ m' ∈ t.2.loopMilestones op, m'.1 = .close → P m m' := by
  have hfirst : ClosesFirst t.2 (t.2.loopMilestones op) (t.2.Closes op) :=
    closesFirst_loopMilestones
  have hwithin : (t.2.loopMilestones op).Pairwise fun m m' =>
      m.1 = .shutdown → m'.1 = .close → P m m' :=
    hfirst.ordered.imp fun hne hshutdown hclose => absurd hclose (hne hshutdown)
  rw [List.pairwise_append, and_iff_right hpassed, and_iff_right hwithin]
  exact forall₂_congr fun m _ => ⟨fun h hshutdown m' hm' => h m' hm' hshutdown,
    fun h m' hm' hshutdown => h hshutdown m' hm'⟩

/-- In the states of a run, a step is graceful exactly if the connection is not closed, or
is drained. -/
theorem graceful_iff_drained {t : Milestones × TcpConnection} {op : LoopOp}
    (hpassed : t.1.Pairwise DeliveredBefore) (h : t.2.Exact 0 0) :
    Graceful t op ↔ Drained t op := by
  have hfirst : ClosesFirst t.2 (t.2.loopMilestones op) (t.2.Closes op) :=
    closesFirst_loopMilestones
  have hcounted := h.counted
  rw [Graceful]
  refine (pairwise_milestones_iff hpassed).trans ?_
  constructor
  · intro hall hcloses m hm hshutdown
    obtain ⟨m', hm', hclose⟩ := hfirst.exists_iff.mpr hcloses
    have hle := hall m hm hshutdown m' hm' hclose
    rw [hfirst.transmitted_eq m' hm' hclose] at hle
    omega
  · intro hall m hm hshutdown m' hm' hclose
    have hle := hall (hfirst.exists_iff.mp ⟨m', hm', hclose⟩) m hm hshutdown
    rw [hfirst.transmitted_eq m' hm' hclose]
    omega

/-- The bytes themselves have been accepted exactly if there are none. -/
theorem gracefulBytes_iff_unsent {t : Milestones × TcpConnection} {op : LoopOp}
    (hpassed : t.1.Pairwise DeliveredBytes) (h : t.2.Sound ∨ t.2.Garbled) :
    GracefulBytes t op ↔ Unsent t op := by
  have hfirst : ClosesFirst t.2 (t.2.loopMilestones op) (t.2.Closes op) :=
    closesFirst_loopMilestones
  rw [GracefulBytes]
  refine (pairwise_milestones_iff hpassed).trans ?_
  constructor
  · intro hall hcloses m hm hshutdown
    obtain ⟨m', hm', hclose⟩ := hfirst.exists_iff.mpr hcloses
    have hprefix := hall m hm hshutdown m' hm' hclose
    rw [hfirst.transmitted_eq m' hm' hclose] at hprefix
    exact (map_prefix_transmitted_iff h).mp hprefix
  · intro hall m hm hshutdown m' hm' hclose
    have hempty := hall (hfirst.exists_iff.mp ⟨m', hm', hclose⟩) m hm hshutdown
    rw [hfirst.transmitted_eq m' hm' hclose]
    exact (map_prefix_transmitted_iff h).mpr hempty

/-- Every step keeps the output as it is, sound or garbled. -/
theorem loopStep_keepsOutput {op : LoopOp} (hok : conn.loopStep op = .ok conn') :
    KeepsOutput conn conn' := by
  cases op with
  | event e =>
    rw [loopStep] at hok
    split at hok
    · obtain rfl := Except.ok.inj hok
      exact keepsOutput_of_eq rfl rfl rfl rfl
    · exact handlerEvent_keeps hok
  | user code => exact runUserCode_keeps code hok
  | serverLoop =>
    obtain ⟨server, -, hret⟩ := bind_eq_ok.mp hok
    obtain rfl := Except.ok.inj hret
    exact keepsOutput_of_eq rfl rfl rfl rfl

/-- The output of an accepted connection is sound. -/
theorem sound_accepted (name : String) (fd : ℤ) (writeCompleteCallback inLoop : Bool)
    (others : Finset String) : (accepted name fd writeCompleteCallback inLoop others).Sound where
  undrained := Buffer.undrained_empty
  stored_eq := rfl
  transmitted_eq := rfl
  calls := by simp [accepted, established, invoke]

/-- In every run whose bytes have a size, as many bytes as were sent before a shutdown have been
accepted when the connection is closed if and only if those have left the output buffer. The bytes
accepted are then, in every run, those that were sent if and only if none were. -/
theorem graceful_iff (name : String) (fd : ℤ) (writeCompleteCallback inLoop : Bool)
    (others : Finset String) (ops : List LoopOp)
    (hfits : Guarded tracedStep Fits
      ([], accepted name fd writeCompleteCallback inLoop others) ops) :
    (Along tracedStep (fun t op _ => Graceful t op)
        ([], accepted name fd writeCompleteCallback inLoop others) ops ↔
      Guarded tracedStep Drained ([], accepted name fd writeCompleteCallback inLoop others) ops) ∧
    (Along tracedStep (fun t op _ => GracefulBytes t op)
        ([], accepted name fd writeCompleteCallback inLoop others) ops ↔
      Guarded tracedStep Unsent
        ([], accepted name fd writeCompleteCallback inLoop others) ops) := by
  constructor
  · refine along_congr_of_guarded (fun t => t.1.Pairwise DeliveredBefore ∧ t.2.Exact 0 0) ?_ ?_
      ⟨List.Pairwise.nil, Nat.two_pow_pos 64, rfl, Nat.le_refl 0⟩ hfits
    · rintro t op ⟨hpassed, h⟩ -
      exact graceful_iff_drained hpassed h
    · rintro ⟨passed, conn⟩ op t ⟨hpassed, h⟩ hfits hdrained hok
      obtain ⟨conn', hstep, rfl⟩ := map_eq_ok.mp hok
      refine ⟨(graceful_iff_drained hpassed h).mpr hdrained, ?_⟩
      have hfits : conn.Exact (op.bytes + 0) 0 := ⟨hfits, h.counted, h.undrained_le⟩
      exact account_exact.loopStep hfits hstep
  · have hexact : ∀ (t : Milestones × TcpConnection) op,
        (t.1.Pairwise DeliveredBytes ∧ (t.2.Sound ∨ t.2.Garbled)) →
          (GracefulBytes t op ↔ Unsent t op) := by
      rintro t op ⟨hpassed, h⟩
      exact gracefulBytes_iff_unsent hpassed h
    refine along_congr hexact ?_
      ⟨List.Pairwise.nil, .inl (sound_accepted name fd writeCompleteCallback inLoop others)⟩
    rintro ⟨passed, conn⟩ op t ⟨hpassed, h⟩ hunsent hok
    obtain ⟨conn', hstep, rfl⟩ := map_eq_ok.mp hok
    refine ⟨(gracefulBytes_iff_unsent hpassed h).mpr hunsent, ?_⟩
    have hkeeps := loopStep_keepsOutput hstep
    exact h.elim hkeeps.sound fun hg => .inr (hkeeps.garbled hg)

end

/-- A byte is written before the shutdown, and another one is sent behind it. -/
theorem graceful_three_steps : Along tracedStep (fun t op _ => Graceful t op)
    ([], accepted "" 3 false false ∅)
    [.user (.send ⟨[1], by decide⟩ (some 1) .done
        (.shutdown (.send ⟨[2], by decide⟩ (some 0) .done .done))),
      .event ⟨pollIn, 0, some [], .done, none, .done⟩, .serverLoop] :=
  (graceful_iff "" 3 false false ∅ _ (by decide +kernel)).1.mpr (by decide +kernel)

/-- A short write, a byte that is only stored, and a shutdown: the connection is closed with
two bytes in the output buffer, one of which has never been offered to `writev`. -/
theorem shortWrite_not_graceful :
    ¬ Along tracedStep (fun t op _ => Graceful t op) ([], accepted "" 3 false false ∅)
      [.user (.send ⟨[1, 2], by decide⟩ (some 1) .done .done),
        .user (.send ⟨[3], by decide⟩ (some 0) .done .done), .user (.shutdown .done),
        .event ⟨pollIn, 0, some [], .done, none, .done⟩] ∧
    (run tracedStep ([], accepted "" 3 false false ∅)
      [.user (.send ⟨[1, 2], by decide⟩ (some 1) .done .done),
        .user (.send ⟨[3], by decide⟩ (some 0) .done .done), .user (.shutdown .done),
        .event ⟨pollIn, 0, some [], .done, none, .done⟩]).map
      (fun t => (t.2.state, t.2.outputBuffer.totalSize, t.2.calls.map WritevCall.howmuch)) =
        .ok (.disConnected, 2, [2]) := by
  decide +kernel

end TcpConnection

end Reactor
