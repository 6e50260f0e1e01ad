import Reactor.PollCalls
import Reactor.TcpConnection.Close

/-!
# Calls on a closed connection

A connection that `handleClose` has closed may still be called: by the rest of the event
that closed it, and by user code that keeps a `shared_ptr`. `sendInLoop` does not look at
the state. As long as unsent bytes are left in the output buffer a late `send` only adds
to them; otherwise it writes to the socket and may enable writing on a channel that the
poller has given away.
-/

namespace Reactor

open Transition

/-- What ends a run of a connection with its poller. -/
inductive PolledFault where
  | connection (fault : ConnectionFault)
  | poller (fault : Fault)
  /-- The step is not possible in the state. -/
  | disabled
  deriving DecidableEq, Repr

/-- A connection with the poller of its loop. -/
structure PolledConnection (ι : Type*) where
  conn : TcpConnection
  poll : Poll ι
  /-- `removeConnectionInPoller` has unregistered the channel. -/
  removed : Bool := false

/-- A call on a connection that has been closed, or a step beside it. -/
inductive LateOp (ι : Type*) where
  /-- User code in a functor or a timer: `send` and `shutdown` of this thread or another. -/
  | user (code : UserCode)
  /-- The event that closed the connection goes on. -/
  | handleError
  | handleClose
  | handleRead (pending : ℕ) (socket : Option (List UInt8)) (onMessage : UserCode)
  | handleWrite (written : Option ℕ) (onWriteComplete : UserCode)
  /-- The server's loop runs a queued functor. -/
  | serverLoop
  | removeConnectionInPoller
  /-- The poller is called for another channel. -/
  | other (op : PollerOp ι)

namespace PolledConnection

variable {ι : Type*} [DecidableEq ι]

/-- A call of the poller. -/
def callPoller (s : PolledConnection ι) (op : PollerOp ι) :
    Except PolledFault (PolledConnection ι) :=
  match s.poll.step op with
  | .ok poll => .ok { s with poll }
  | .error fault => .error (.poller fault)

/-- The function has called `Channel::update`: it has set another mask, or closed the
connection once more. A mask that is replaced in the same call is not handed to the poller. -/
def hasUpdated (conn conn' : TcpConnection) : Bool :=
  conn'.channel.events != conn.channel.events ||
    conn'.invoked.count .close != conn.invoked.count .close

/-- A function of the connection is called; `Channel::update` hands the mask to the poller. -/
def call (c : ι) (s : PolledConnection ι) (r : Except ConnectionFault TcpConnection) :
    Except PolledFault (PolledConnection ι) :=
  match r with
  | .ok conn =>
    if hasUpdated s.conn conn then callPoller { s with conn } (.update c conn.channel.events)
    else .ok { s with conn }
  | .error fault => .error (.connection fault)

/-- The handlers are called as long as the poller reports events of the channel. -/
def handler (c : ι) (s : PolledConnection ι) (r : Except ConnectionFault TcpConnection) :
    Except PolledFault (PolledConnection ι) :=
  if s.removed = false then s.call c r else .error .disabled

/-- A call on the connection, or a step beside it; `c` is the channel of the connection. -/
def step (c : ι) (s : PolledConnection ι) : LateOp ι → Except PolledFault (PolledConnection ι)
  | .user code => s.call c (TcpConnection.runUserCode code s.conn)
  | .handleError => s.handler c (.ok s.conn.handleError)
  | .handleClose => s.handler c s.conn.handleClose
  | .handleRead pending socket onMessage =>
    s.handler c (s.conn.handleRead pending socket onMessage)
  | .handleWrite written onWriteComplete =>
    s.handler c (s.conn.handleWrite written onWriteComplete)
  | .serverLoop => s.call c (s.conn.loopStep .serverLoop)
  | .removeConnectionInPoller =>
    if s.removed = false then callPoller { s with removed := true } (.remove c)
    else .error .disabled
  | .other op => if op.channel ≠ c then s.callPoller op else .error .disabled

/-- The poller is left as it is, but for the entry of the channel `c` itself. -/
def OwnEntryOnly (c : ι) (poll poll' : Poll ι) : Prop :=
  poll'.channelMap = poll.channelMap ∧ (∀ d ≠ c, poll'.channels d = poll.channels d) ∧
    ∀ i : ℕ, (i : ℤ) ≠ (poll.channels c).index → poll'.pollfds[i]? = poll.pollfds[i]?

/-- A call on the connection writes nothing to the socket and hands the poller no mask but
the empty one, while its channel is registered; the entries of the others stay as they are. -/
def StaysClosed (c : ι) (s : PolledConnection ι) (op : LateOp ι)
    (r : Except PolledFault (PolledConnection ι)) : Prop :=
  ∀ s', r = .ok s' → s'.conn.calls = s.conn.calls ∧ s'.conn.transmitted = s.conn.transmitted ∧
    s'.conn.channel.isNoneEvent = true ∧
    (op ≠ .removeConnectionInPoller → (∀ op', op ≠ .other op') →
      OwnEntryOnly c s.poll s'.poll ∧ (s.removed = true → s'.poll = s.poll))

end PolledConnection

/-- Every `send` of the code finds bytes in the output buffer. -/
def UserCode.SendsBuffered : UserCode → Buffer → Prop
  | .done, _ => True
  | .send message _ _ next, b =>
    b.totalSize ≠ 0 ∧ ∀ b', b.bufferAdd message.val = .ok b' → next.SendsBuffered b'
  | .shutdown next, b | .drain _ next, b | .read _ next, b => next.SendsBuffered b

namespace UserCode

instance decidableSendsBuffered : ∀ (code : UserCode) (b : Buffer), Decidable (code.SendsBuffered b)
  | .done, _ => .isTrue trivial
  | .send message written complete next, b =>
    match h : b.bufferAdd message.val with
    | .error e => decidable_of_iff (b.totalSize ≠ 0)
        ⟨fun hsize => ⟨hsize, fun b' hb' => by simp [h] at hb'⟩, And.left⟩
    | .ok b' =>
      have : Decidable (next.SendsBuffered b') := decidableSendsBuffered next b'
      decidable_of_iff (b.totalSize ≠ 0 ∧ next.SendsBuffered b')
        ⟨fun hand => ⟨hand.1, fun b'' hb'' => Except.ok.inj (h.symm.trans hb'') ▸ hand.2⟩,
          fun hand => ⟨hand.1, hand.2 b' h⟩⟩
  | .shutdown next, b => decidableSendsBuffered next b
  | .drain _ next, b => decidableSendsBuffered next b
  | .read _ next, b => decidableSendsBuffered next b

end UserCode

namespace PolledConnection

variable {ι : Type*} [DecidableEq ι]

/-- Every `send` that runs on the closed connection finds bytes in the output buffer. -/
def SendsBuffered (s : PolledConnection ι) : LateOp ι → Prop
  | .user code => code.SendsBuffered s.conn.outputBuffer
  | .handleRead pending socket onMessage =>
    match s.conn.inputBuffer.bufferReadFd pending socket with
    | .ok (_, n) => 0 < n → onMessage.SendsBuffered s.conn.outputBuffer
    | .error _ => True
  | _ => True

instance (s : PolledConnection ι) (op : LateOp ι) : Decidable (s.SendsBuffered op) := by
  unfold SendsBuffered
  split
  · infer_instance
  · split
    · infer_instance
    · infer_instance
  · infer_instance

end PolledConnection

namespace TcpConnection

/-- The connection is closed and without interest. -/
def IsClosed (conn : TcpConnection) : Prop :=
  conn.state = .disConnected ∧ conn.channel.isNoneEvent = true

/-- Nothing is written, and the channel and the state are left alone. -/
structure Untouched (conn conn' : TcpConnection) : Prop where
  state_eq : conn'.state = conn.state
  channel_eq : conn'.channel = conn.channel
  invoked_eq : conn'.invoked = conn.invoked
  calls_eq : conn'.calls = conn.calls
  transmitted_eq : conn'.transmitted = conn.transmitted

/-- A call on a closed connection. -/
structure LateCall (conn conn' : TcpConnection) : Prop where
  isClosed : conn'.IsClosed
  calls_eq : conn'.calls = conn.calls
  transmitted_eq : conn'.transmitted = conn.transmitted

section

variable {conn conn' conn'' : TcpConnection}

/-- A step that does nothing touches nothing. -/
theorem Untouched.refl (conn : TcpConnection) : conn.Untouched conn :=
  ⟨rfl, rfl, rfl, rfl, rfl⟩

/-- What neither of two steps touches stays. -/
theorem Untouched.trans (h : conn.Untouched conn') (h' : conn'.Untouched conn'') :
    conn.Untouched conn'' where
  state_eq := h'.state_eq.trans h.state_eq
  channel_eq := h'.channel_eq.trans h.channel_eq
  invoked_eq := h'.invoked_eq.trans h.invoked_eq
  calls_eq := h'.calls_eq.trans h.calls_eq
  transmitted_eq := h'.transmitted_eq.trans h.transmitted_eq

/-- A closed connection that is not touched stays closed. -/
theorem IsClosed.of_untouched (h : conn.IsClosed) (hconn : conn.Untouched conn') :
    conn'.IsClosed := by
  unfold IsClosed at h ⊢
  rwa [hconn.state_eq, hconn.channel_eq]

/-- With bytes in the output buffer `sendInLoop` only adds to them. -/
theorem sendInLoop_of_buffered {message : List UInt8} {answer : Option ℕ}
    {complete : TcpConnection → Except ConnectionFault TcpConnection}
    (hsize : conn.outputBuffer.totalSize ≠ 0)
    (hok : conn.sendInLoop message answer complete = .ok conn') :
    conn.Untouched conn' ∧ conn.outputBuffer.bufferAdd message = .ok conn'.outputBuffer := by
  have hidle : ¬ conn.isIdle = true := by simp [isIdle, hsize]
  rw [sendInLoop, if_neg hidle] at hok
  obtain ⟨b, hadd, hret⟩ := bind_eq_ok.mp hok
  obtain rfl := Except.ok.inj hret
  exact ⟨⟨rfl, rfl, rfl, rfl, rfl⟩, liftBuffer_eq_ok.mp hadd⟩

/-- User code whose sends find bytes in the output buffer. -/
theorem runUserCode_of_buffered (hclosed : conn.IsClosed) {code : UserCode}
    (hcode : code.SendsBuffered conn.outputBuffer) (hok : runUserCode code conn = .ok conn') :
    conn.Untouched conn' := by
  induction code generalizing conn with
  | done =>
    obtain rfl := Except.ok.inj hok
    exact .refl conn
  | send message written complete next _ ih =>
    obtain ⟨conn₁, hsend, hnext⟩ := bind_eq_ok.mp hok
    obtain ⟨hconn, hadd⟩ := sendInLoop_of_buffered hcode.1 hsend
    exact hconn.trans (ih (hclosed.of_untouched hconn) (hcode.2 _ hadd) hnext)
  | shutdown next ih =>
    have hsame : conn.shutdownInLoop = conn := by
      unfold shutdownInLoop
      rw [if_neg (by simp [hclosed.1])]
    rw [runUserCode, hsame] at hok
    exact ih hclosed hcode hok
  | drain n next ih =>
    obtain ⟨b, -, hnext⟩ := bind_eq_ok.mp hok
    have hread : IsClosed { conn with inputBuffer := b } := hclosed
    have hrest := ih hread hcode hnext
    exact ⟨hrest.state_eq, hrest.channel_eq, hrest.invoked_eq, hrest.calls_eq,
      hrest.transmitted_eq⟩
  | read n next ih =>
    obtain ⟨b, -, hnext⟩ := bind_eq_ok.mp hok
    have hread : IsClosed { conn with inputBuffer := b.1 } := hclosed
    have hrest := ih hread hcode hnext
    exact ⟨hrest.state_eq, hrest.channel_eq, hrest.invoked_eq, hrest.calls_eq,
      hrest.transmitted_eq⟩

/-- On a closed connection a call that touches nothing is late. -/
theorem Untouched.lateCall (hconn : conn.Untouched conn') (hclosed : conn.IsClosed) :
    conn.LateCall conn' :=
  ⟨hclosed.of_untouched hconn, hconn.calls_eq, hconn.transmitted_eq⟩

/-- `handleClose` writes nothing, and leaves the connection without interest. -/
theorem handleClose_lateCall (hok : conn.handleClose = .ok conn') : conn.LateCall conn' := by
  obtain ⟨server, -, hret⟩ := bind_eq_ok.mp hok
  obtain rfl := Except.ok.inj hret
  exact ⟨⟨rfl, rfl⟩, rfl, rfl⟩

/-- `handleRead` reads once more, or closes again. -/
theorem IsClosed.handleRead (hclosed : conn.IsClosed) {pending : ℕ} {socket : Option (List UInt8)}
    {onMessage : UserCode}
    (hcode : ∀ b n, conn.inputBuffer.bufferReadFd pending socket = .ok (b, n) →
      0 < n → onMessage.SendsBuffered conn.outputBuffer)
    (hok : conn.handleRead pending socket onMessage = .ok conn') : conn.LateCall conn' := by
  obtain ⟨⟨inputBuffer, n⟩, hread, hrest⟩ := bind_eq_ok.mp hok
  dsimp only at hrest
  split at hrest
  · next hn =>
    have hbuffered := hcode _ _ (liftBuffer_eq_ok.mp hread) hn
    have hmessage : IsClosed (invoke { conn with inputBuffer } .message) := hclosed
    have hrun := runUserCode_of_buffered hmessage hbuffered hrest
    have hlate := hrun.lateCall hclosed
    exact ⟨hlate.isClosed, hlate.calls_eq, hlate.transmitted_eq⟩
  · have hclose := handleClose_lateCall hrest
    exact ⟨hclose.isClosed, hclose.calls_eq, hclose.transmitted_eq⟩

end

end TcpConnection

namespace PolledConnection

variable {ι : Type*} [DecidableEq ι] {c : ι} {s s' : PolledConnection ι} {op : LateOp ι}

omit [DecidableEq ι] in
/-- A poller that is not called touches no entry. -/
theorem OwnEntryOnly.refl (c : ι) (poll : Poll ι) : OwnEntryOnly c poll poll :=
  ⟨rfl, fun _ _ => rfl, fun _ _ => rfl⟩

/-- A further update of a channel that has a position. -/
theorem ownEntryOnly_update {poll poll' : Poll ι} {mask : EventMask}
    (hindex : 0 ≤ (poll.channels c).index) (hok : poll.step (.update c mask) = .ok poll') :
    OwnEntryOnly c poll poll' := by
  rcases Poll.update_ok hok with ⟨hneg, -⟩ | ⟨-, -, rfl⟩
  · omega
  · refine ⟨rfl, fun d hd => setEvents_of_ne _ _ hd, fun i hi => ?_⟩
    apply List.getElem?_set_ne
    omega

/-- The connection is closed and without interest, and its channel has a position. -/
structure IsClosed (c : ι) (s : PolledConnection ι) : Prop where
  conn : s.conn.IsClosed
  index_nonneg : 0 ≤ (s.poll.channels c).index

/-- The step is that of a closed connection, and leaves it closed. -/
def KeepsClosed (c : ι) (s s' : PolledConnection ι) : Prop :=
  s'.IsClosed c ∧ s.conn.LateCall s'.conn ∧ OwnEntryOnly c s.poll s'.poll ∧
    (s.removed = true → s'.poll = s.poll)

/-- A late call that does not update the poller behind the removal keeps the connection closed. -/
theorem IsClosed.call (h : s.IsClosed c) {r : Except ConnectionFault TcpConnection}
    (hlate : ∀ conn', r = .ok conn' → s.conn.LateCall conn')
    (hupdate : s.removed = true → ∀ conn', r = .ok conn' → hasUpdated s.conn conn' = false)
    (hok : s.call c r = .ok s') : s.KeepsClosed c s' := by
  unfold PolledConnection.call at hok
  split at hok
  · next conn =>
    have hconn := hlate conn rfl
    split at hok
    · next hupdated =>
      have hpresent : ¬ s.removed = true := by
        intro hremoved
        simp [hupdate hremoved conn rfl] at hupdated
      unfold callPoller at hok
      split at hok
      · next poll hpoll =>
        obtain rfl := Except.ok.inj hok
        have hindex := Poll.index_nonneg_step h.index_nonneg hpoll
        exact ⟨⟨hconn.isClosed, hindex⟩, hconn, ownEntryOnly_update h.index_nonneg hpoll,
          fun hremoved => absurd hremoved hpresent⟩
      · cases hok
    · obtain rfl := Except.ok.inj hok
      exact ⟨⟨hconn.isClosed, h.index_nonneg⟩, hconn, .refl c s.poll, fun _ => rfl⟩
  · cases hok

/-- Code that leaves the channel alone calls no `update`. -/
theorem hasUpdated_of_untouched {conn conn' : TcpConnection} (h : conn.Untouched conn') :
    hasUpdated conn conn' = false := by
  simp [hasUpdated, h.channel_eq, h.invoked_eq]

/-- A call that touches nothing keeps the connection closed. -/
theorem IsClosed.call_untouched (h : s.IsClosed c) {r : Except ConnectionFault TcpConnection}
    (hsame : ∀ conn', r = .ok conn' → s.conn.Untouched conn') (hok : s.call c r = .ok s') :
    s.KeepsClosed c s' := by
  apply h.call ?_ ?_ hok
  · intro conn' hr
    exact (hsame conn' hr).lateCall h.conn
  · intro _ conn' hr
    exact hasUpdated_of_untouched (hsame conn' hr)

/-- A handler of a closed connection keeps it closed. -/
theorem IsClosed.handler (h : s.IsClosed c) {r : Except ConnectionFault TcpConnection}
    (hlate : ∀ conn', r = .ok conn' → s.conn.LateCall conn') (hok : s.handler c r = .ok s') :
    s.KeepsClosed c s' := by
  unfold PolledConnection.handler at hok
  split at hok
  · next hpresent =>
    apply h.call hlate ?_ hok
    intro hremoved
    simp [hpresent] at hremoved
  · cases hok

/-- The loop of the server does not touch the connection. -/
theorem serverLoop_untouched {conn conn' : TcpConnection}
    (hok : conn.loopStep .serverLoop = .ok conn') : conn.Untouched conn' := by
  obtain ⟨server, -, hret⟩ := bind_eq_ok.mp hok
  obtain rfl := Except.ok.inj hret
  exact ⟨rfl, rfl, rfl, rfl, rfl⟩

/-- Calls of other channels to the poller keep the connection closed. -/
theorem IsClosed.callPoller (h : s.IsClosed c) {op : PollerOp ι}
    (hok : s.callPoller op = .ok s') : s'.IsClosed c ∧ s'.conn = s.conn := by
  unfold PolledConnection.callPoller at hok
  split at hok
  · next poll hpoll =>
    obtain rfl := Except.ok.inj hok
    exact ⟨⟨h.conn, Poll.index_nonneg_step h.index_nonneg hpoll⟩, rfl⟩
  · cases hok

/-- A call on the closed connection. -/
theorem IsClosed.step_call (h : s.IsClosed c) (hcode : s.SendsBuffered op)
    (hremove : op ≠ .removeConnectionInPoller) (hother : ∀ op', op ≠ .other op')
    (hok : s.step c op = .ok s') : s.KeepsClosed c s' := by
  cases op with
  | user code =>
    apply h.call_untouched ?_ hok
    intro conn' hr
    exact TcpConnection.runUserCode_of_buffered h.conn hcode hr
  | handleError =>
    apply h.handler ?_ hok
    rintro conn' hr
    obtain rfl := Except.ok.inj hr
    exact ⟨h.conn, rfl, rfl⟩
  | handleClose =>
    apply h.handler ?_ hok
    intro conn' hr
    exact TcpConnection.handleClose_lateCall hr
  | handleRead pending socket onMessage =>
    apply h.handler ?_ hok
    intro conn' hr
    apply h.conn.handleRead ?_ hr
    intro b n hread hn
    simp only [SendsBuffered, hread] at hcode
    exact hcode hn
  | handleWrite written onWriteComplete =>
    apply h.handler ?_ hok
    intro conn' hr
    rw [TcpConnection.handleWrite_of_isNoneEvent h.conn.2] at hr
    obtain rfl := Except.ok.inj hr
    exact ⟨h.conn, rfl, rfl⟩
  | serverLoop =>
    apply h.call_untouched ?_ hok
    intro conn' hr
    exact serverLoop_untouched hr
  | removeConnectionInPoller => exact absurd rfl hremove
  | other op' => exact absurd rfl (hother op')

/-- The connection stays closed, whatever the step is. -/
theorem IsClosed.step (h : s.IsClosed c) (hcode : s.SendsBuffered op)
    (hok : s.step c op = .ok s') : s'.IsClosed c ∧ s.conn.LateCall s'.conn := by
  have hself : s.conn.LateCall s.conn := (TcpConnection.Untouched.refl s.conn).lateCall h.conn
  by_cases hremove : op = .removeConnectionInPoller
  · subst hremove
    rw [PolledConnection.step] at hok
    split at hok
    · have hremoved : IsClosed c { s with removed := true } := ⟨h.conn, h.index_nonneg⟩
      obtain ⟨hclosed, hconn⟩ := hremoved.callPoller hok
      exact ⟨hclosed, hconn ▸ hself⟩
    · cases hok
  by_cases hother : ∃ op', op = .other op'
  · obtain ⟨op', rfl⟩ := hother
    rw [PolledConnection.step] at hok
    split at hok
    · obtain ⟨hclosed, hconn⟩ := h.callPoller hok
      exact ⟨hclosed, hconn ▸ hself⟩
    · cases hok
  · have hkeeps := h.step_call hcode hremove (fun op' heq => hother ⟨op', heq⟩) hok
    exact ⟨hkeeps.1, hkeeps.2.1⟩

/-- A closed connection stays closed if what user code sends is only stored. -/
theorem IsClosed.staysClosed (h : s.IsClosed c) (hcode : s.SendsBuffered op) :
    s.StaysClosed c op (s.step c op) := by
  intro s' hok
  obtain ⟨hclosed, hlate⟩ := h.step hcode hok
  refine ⟨hlate.calls_eq, hlate.transmitted_eq, hclosed.conn.2, fun hremove hother => ?_⟩
  exact (h.step_call hcode hremove hother hok).2.2

/-- `handleClose` closes any connection. -/
theorem isClosed_of_handleClose (hok : s.step c .handleClose = .ok s') : s'.IsClosed c := by
  rw [PolledConnection.step] at hok
  unfold PolledConnection.handler PolledConnection.call at hok
  split at hok
  · split at hok
    · next conn hclose =>
      have hconn := TcpConnection.handleClose_lateCall hclose
      obtain ⟨server, -, hret⟩ := bind_eq_ok.mp hclose
      have hupdated : hasUpdated s.conn conn = true := by
        obtain rfl := Except.ok.inj hret
        simp [hasUpdated, TcpConnection.invoke]
      rw [if_pos hupdated] at hok
      unfold PolledConnection.callPoller at hok
      split at hok
      · next poll hpoll =>
        obtain rfl := Except.ok.inj hok
        exact ⟨hconn.isClosed, Poll.index_nonneg_of_update hpoll⟩
      · cases hok
    · cases hok
  · cases hok

/-- After `handleClose` every call leaves the connection closed, as long as each `send`
that runs on it finds bytes in the output buffer. -/
theorem staysClosed_of_buffered (hclose : s.step c .handleClose = .ok s') {ops : List (LateOp ι)}
    (h : Guarded (step c) SendsBuffered s' ops) : Along (step c) (StaysClosed c) s' ops := by
  apply along_of_guarded (IsClosed c) ?_ ?_ (isClosed_of_handleClose hclose) h
  · intro s op hs hcode
    exact hs.staysClosed hcode
  · intro s op t hs hcode hok
    exact (hs.step hcode hok).1

/-- Two connections in the loop of a server: the channel `false` of the one modelled, with
bytes left in its output buffer, and the channel `true` of another. -/
def amongTwo (unsent : List UInt8) : PolledConnection Bool where
  conn := { TcpConnection.accepted "" 3 false true ∅ with
    outputBuffer := (Buffer.bufferAdd {} unsent).toOption.getD {} }
  poll :=
    { pollfds := [{ fd := 3, events := kRead }, { fd := 4, events := kRead }]
      channelMap := Finmap.insert 4 (some true) (Finmap.insert 3 (some false) ∅)
      channels := fun d => { fd := cond d 4 3, events := kRead, index := cond d 1 0 } }

/-- User code keeps the connection, and sends two bytes after the poller has removed it. -/
def lateSend : List (LateOp Bool) :=
  [.removeConnectionInPoller, .user (.send ⟨[1, 2], by decide⟩ (some 1) .done .done)]

/-- Behind a byte that was not sent before the close the two bytes are not sent either. -/
theorem staysClosed_of_buffered_two_steps : ∃ s, (amongTwo [7]).step false .handleClose = .ok s ∧
    Along (step false) (StaysClosed false) s lateSend := by
  have hcode : ((amongTwo [7]).step false .handleClose).map (fun s =>
      decide (Guarded (step false) SendsBuffered s lateSend)) = .ok true := by
    decide +kernel
  obtain ⟨s, hclose, hguard⟩ := map_eq_ok.mp hcode
  exact ⟨s, hclose, staysClosed_of_buffered hclose (of_decide_eq_true hguard)⟩

/-- With an empty output buffer the late `send` writes, and takes the entry of the other
channel for its own. -/
theorem not_staysClosed : ∃ s, (amongTwo []).step false .handleClose = .ok s ∧
    ¬ Along (step false) (StaysClosed false) s lateSend := by
  have hcode : ((amongTwo []).step false .handleClose >>= fun s =>
      s.step false .removeConnectionInPoller >>= fun t =>
        t.step false (.user (.send ⟨[1, 2], by decide⟩ (some 1) .done .done)) >>= fun u =>
          .ok (t.poll.pollfds, u.poll.pollfds, t.conn.calls.length, u.conn.calls.length)) =
      .ok ([{ fd := 4, events := kRead }], [{ fd := 3, events := kWrite }], 0, 1) := by
    decide +kernel
  obtain ⟨s, hclose, hrest⟩ := bind_eq_ok.mp hcode
  obtain ⟨t, hremove, hrest⟩ := bind_eq_ok.mp hrest
  obtain ⟨u, hsend, hcalls⟩ := bind_eq_ok.mp hrest
  simp only [Except.ok.injEq, Prod.mk.injEq] at hcalls
  refine ⟨s, hclose, fun h => ?_⟩
  have hsame := (h.2 t hremove).1 u hsend
  rw [hsame.1] at hcalls
  omega

end PolledConnection

end Reactor
