import Reactor.Connector.Calls

/-!
# The sockets of the connector

Every socket that `connect` creates should be watched by the connect channel, or closed
once, or handed over once. Between these situations a function has the socket in hand.
`connecting` and `retry` drop it once `connecting_` has been cleared, `connect` drops it
when it returns 0 or fails with any other error, and a channel that is replaced while it is
registered takes its socket with it.
-/

namespace Reactor

open Transition

namespace Connector

/-- `connectChannel_` owns a channel that watches the socket for writing. -/
def Owns (s : Connector) (i : ℕ) : Prop :=
  (∃ ch ∈ s.connectChannel, ch.socket = i ∧ ch.channel.isWriting = true) ∧ i ∈ s.registered

/-- The socket is in exactly one of the three situations. -/
def Accounted (s : Connector) (i : ℕ) : Prop :=
  s.Owns i ∧ s.closed.count i + s.handed.count i = 0 ∨
    ¬ s.Owns i ∧ s.closed.count i + s.handed.count i = 1

/-- Every socket that has been created is accounted for. -/
def AllAccounted (s : Connector) : Prop := ∀ i < s.fds.length, s.Accounted i

/-- The socket that `connect` creates does not get lost. -/
def KeepsNewSocket (s : Connector) (answer : ConnectAnswer) : Prop :=
  answer = .noSocket ∨
    s.connecting_ = true ∧ (answer.Retries ∨ answer.Waits ∧ ¬ s.ChannelRegistered)

/-- `startInLoop` does not lose a socket. -/
def StartKeepsSockets (s : Connector) (answer : ConnectAnswer) : Prop :=
  s.state = .disConnected → s.KeepsNewSocket answer

/-- The handlers do not lose a socket. -/
def EventKeepsSocket (s : Connector) (e : ConnectEvent) : Prop :=
  s.RetriesAt e → s.connecting_ = true

/-- No socket gets lost: `connect` waits or retries while `connecting_` is set, and waits
only when no connect channel is registered; an attempt that fails finds `connecting_` set;
and `resetChannel` finds no registered channel. -/
def KeepsSockets (s : Connector) (a : ConnectorAction) : Prop :=
  s.Meets StartKeepsSockets (fun s => ¬ s.ChannelRegistered) EventKeepsSocket a

instance (s : Connector) (answer : ConnectAnswer) : Decidable (s.KeepsNewSocket answer) :=
  inferInstanceAs (Decidable (_ ∨ _))

instance (s : Connector) (answer : ConnectAnswer) : Decidable (s.StartKeepsSockets answer) :=
  inferInstanceAs (Decidable (_ → _))

instance (s : Connector) (e : ConnectEvent) : Decidable (s.EventKeepsSocket e) :=
  inferInstanceAs (Decidable (_ → _))

instance (s : Connector) (a : ConnectorAction) : Decidable (s.KeepsSockets a) :=
  inferInstanceAs (Decidable (s.Meets _ _ _ a))

/-- What holds of the connect channel and of the sockets to come in every run that loses
no socket. -/
structure ChannelKept (s : Connector) : Prop where
  owned : ∀ i ∈ s.registered, i < s.fds.length ∧
    ∃ ch ∈ s.connectChannel, ch.socket = i ∧ ch.channel.isWriting = true
  unused : ∀ i, s.fds.length ≤ i → s.closed.count i + s.handed.count i = 0
  callback : s.newConnectionCallback = true

/-- No socket has been lost. -/
structure SocketsKept (s : Connector) : Prop extends ChannelKept s where
  accounted : s.AllAccounted

/-- A function has the socket in hand; all others are accounted for. -/
structure InHand (s : Connector) (sockfd : ℕ) : Prop extends ChannelKept s where
  lt : sockfd < s.fds.length
  notMem : sockfd ∉ s.registered
  count_eq : s.closed.count sockfd + s.handed.count sockfd = 0
  others : ∀ i < s.fds.length, i ≠ sockfd → s.Accounted i

section

variable {s t : Connector} {i sockfd : ℕ} {answer : ConnectAnswer}

/-- The sockets are a matter of the fields that an attempt uses. -/
theorem SocketsKept.of_same (hs : s.SocketsKept) (h : SameAttempt s t) : t.SocketsKept where
  owned := by
    rw [h.registered_eq, h.connectChannel_eq, h.fds_eq]
    exact hs.owned
  unused := by
    rw [h.fds_eq, h.closed_eq, h.handed_eq]
    exact hs.unused
  callback := h.callback_eq.trans hs.callback
  accounted := by
    unfold AllAccounted Accounted Owns
    rw [h.registered_eq, h.connectChannel_eq, h.fds_eq, h.closed_eq, h.handed_eq]
    exact hs.accounted

/-- The channels owned are those registered. -/
theorem ChannelKept.owns_iff (h : s.ChannelKept) : s.Owns i ↔ i ∈ s.registered :=
  ⟨And.right, fun hi => ⟨(h.owned i hi).2, hi⟩⟩

/-- The connector has a registered channel exactly if there is one. -/
theorem ChannelKept.channelRegistered_iff (h : s.ChannelKept) :
    s.ChannelRegistered ↔ s.registered.Nonempty := by
  constructor
  · rintro ⟨ch, -, hch⟩
    exact ⟨ch.socket, hch⟩
  · rintro ⟨i, hi⟩
    obtain ⟨-, ch, hch, rfl, -⟩ := h.owned i hi
    exact ⟨ch, hch, hi⟩

/-- Where the connector has no registered channel there is none. -/
theorem ChannelKept.registered_eq_empty (h : s.ChannelKept) (hfree : ¬ s.ChannelRegistered) :
    s.registered = ∅ := by
  rwa [h.channelRegistered_iff, Finset.not_nonempty_iff_eq_empty] at hfree

/-- Only the channel that `connectChannel_` owns can be registered. -/
theorem ChannelKept.eq_socket (h : s.ChannelKept) {ch : ConnectChannel}
    (howned : s.connectChannel = some ch) (hi : i ∈ s.registered) : i = ch.socket := by
  obtain ⟨-, ch', hch', rfl, -⟩ := h.owned i hi
  obtain rfl := Option.some.inj (howned.symm.trans hch')
  rfl

/-- A registered socket has neither been closed nor handed over. -/
theorem ChannelKept.count_of_registered (h : s.ChannelKept) (hi : i ∈ s.registered)
    (haccounted : s.Accounted i) : s.closed.count i + s.handed.count i = 0 := by
  rcases haccounted with ⟨-, hcount⟩ | ⟨hnot, -⟩
  · exact hcount
  · exact absurd (h.owns_iff.mpr hi) hnot

/-- A descriptor that is not registered and accounted for has been closed or handed over once. -/
theorem ChannelKept.count_of_not_registered (h : s.ChannelKept) (hi : i ∉ s.registered)
    (haccounted : s.Accounted i) : s.closed.count i + s.handed.count i = 1 := by
  rcases haccounted with ⟨howns, -⟩ | ⟨-, hcount⟩
  · exact absurd (h.owns_iff.mp howns) hi
  · exact hcount

/-! ## A socket in hand -/

/-- A socket in hand is not accounted for yet. -/
theorem InHand.not_accounted (h : s.InHand sockfd) : ¬ s.AllAccounted := by
  intro haccounted
  have hcount := h.count_of_not_registered h.notMem (haccounted sockfd h.lt)
  have hzero := h.count_eq
  omega

/-- `connecting` gives the socket to a channel, if no other is registered. -/
theorem InHand.connecting (h : s.InHand sockfd) (hconnecting : s.connecting_ = true)
    (hfree : ¬ s.ChannelRegistered) : (s.connecting sockfd).SocketsKept := by
  have hempty := h.registered_eq_empty hfree
  have hregistered : (s.connecting sockfd).registered = {sockfd} := by
    rw [registered_connecting hconnecting, hempty]
    rfl
  obtain ⟨channel, hwriting, heq⟩ := connecting_eq hconnecting sockfd
  have howned : ∀ i ∈ (s.connecting sockfd).registered, i < (s.connecting sockfd).fds.length ∧
      ∃ ch ∈ (s.connecting sockfd).connectChannel, ch.socket = i ∧ ch.channel.isWriting = true := by
    rw [hregistered, heq]
    intro i hi
    obtain rfl := Finset.mem_singleton.mp hi
    exact ⟨h.lt, _, rfl, rfl, hwriting⟩
  have hkept : (s.connecting sockfd).ChannelKept := by
    refine ⟨howned, ?_, ?_⟩
    · rw [heq]
      exact h.unused
    · rw [heq]
      exact h.callback
  refine ⟨hkept, fun i hi => ?_⟩
  rw [heq] at hi
  unfold Accounted
  rw [hkept.owns_iff, hregistered, Finset.mem_singleton, heq]
  by_cases hself : i = sockfd
  · subst hself
    exact .inl ⟨rfl, h.count_eq⟩
  · have hnot : i ∉ s.registered := by simp [hempty]
    exact .inr ⟨hself, h.count_of_not_registered hnot (h.others i hi hself)⟩

/-- The socket of a registered channel gets lost when `connecting` replaces the channel. -/
theorem InHand.connecting_loses (h : s.InHand sockfd) (hconnecting : s.connecting_ = true)
    (hreg : s.ChannelRegistered) : ¬ (s.connecting sockfd).AllAccounted := by
  obtain ⟨i, hi⟩ := h.channelRegistered_iff.mp hreg
  have hne : i ≠ sockfd := fun heq => h.notMem (heq ▸ hi)
  have hlt := (h.owned i hi).1
  have hcount := h.count_of_registered hi (h.others i hlt hne)
  obtain ⟨channel, -, heq⟩ := connecting_eq hconnecting sockfd
  have hnot : ¬ (s.connecting sockfd).Owns i := by
    rw [heq]
    rintro ⟨⟨ch, hch, hsocket, -⟩, -⟩
    obtain rfl := Option.some.inj hch
    exact hne hsocket.symm
  intro haccounted
  have hlt' : i < (s.connecting sockfd).fds.length := by rwa [heq]
  rcases haccounted i hlt' with ⟨howns, -⟩ | ⟨-, hone⟩
  · exact hnot howns
  · rw [heq] at hone
    dsimp only at hone
    omega

/-- One more occurrence is counted of the number at the end. -/
theorem count_push (l : List ℕ) (n i : ℕ) :
    (l ++ [n]).count i = l.count i + if i = n then 1 else 0 := by
  rw [List.count_append, List.count_singleton]
  by_cases hself : i = n
  · simp [hself]
  · simp [hself, Ne.symm hself]

/-- A socket that is closed or handed over. -/
theorem InHand.settled (h : s.InHand sockfd) {t : Connector}
    (hchannel : t.connectChannel = s.connectChannel) (hregistered : t.registered = s.registered)
    (hfds : t.fds = s.fds) (hcallback : t.newConnectionCallback = s.newConnectionCallback)
    (hcount : ∀ i, t.closed.count i + t.handed.count i =
      s.closed.count i + s.handed.count i + if i = sockfd then 1 else 0) : t.SocketsKept := by
  have hkept : t.ChannelKept := by
    refine ⟨?_, fun i hi => ?_, hcallback.trans h.callback⟩
    · rw [hregistered, hchannel, hfds]
      exact h.owned
    · have hlt := h.lt
      rw [hfds] at hi
      rw [hcount, h.unused i hi, if_neg (by omega)]
  refine ⟨hkept, fun i hi => ?_⟩
  unfold Accounted
  rw [hkept.owns_iff, hregistered, hcount]
  by_cases hself : i = sockfd
  · subst hself
    rw [if_pos rfl, h.count_eq]
    exact .inr ⟨h.notMem, rfl⟩
  · rw [hfds] at hi
    have hold := h.others i hi hself
    unfold Accounted at hold
    rwa [if_neg hself, Nat.add_zero, ← h.owns_iff]

/-- A retry accounts for the socket in hand. -/
theorem InHand.retry (h : s.InHand sockfd) (hconnecting : s.connecting_ = true) :
    (s.retry sockfd).SocketsKept := by
  apply h.settled
  · rw [retry_eq hconnecting]
  · rw [registered_retry]
  · rw [retry_eq hconnecting]
  · rw [retry_eq hconnecting]
  · intro i
    rw [retry_eq hconnecting]
    dsimp only
    rw [count_push]
    omega

/-- Reporting the connection accounts for the socket in hand. -/
theorem InHand.reportConnection (h : s.InHand sockfd) :
    (s.reportConnection sockfd).SocketsKept := by
  have heq := reportConnection_eq h.callback sockfd
  apply h.settled
  · rw [heq]
  · rw [registered_reportConnection]
  · rw [heq]
  · rw [heq]
  · intro i
    rw [heq]
    dsimp only
    rw [count_push]
    omega

/-! ## Sockets taken in hand -/

/-- The socket that `connect` creates. -/
theorem SocketsKept.createSocket (h : s.SocketsKept) (fd : ℕ) :
    (s.createSocket fd).InHand s.fds.length := by
  have hlength := length_createSocket s fd
  have hkept : (s.createSocket fd).ChannelKept := by
    refine ⟨fun i hi => ?_, fun i hi => h.unused i (by omega), h.callback⟩
    obtain ⟨hlt, hchannel⟩ := h.owned i hi
    exact ⟨by omega, hchannel⟩
  refine ⟨hkept, by omega, fun hmem => ?_, h.unused _ (Nat.le_refl _), fun i hi hne => ?_⟩
  · exact absurd (h.owned _ hmem).1 (Nat.lt_irrefl _)
  · exact h.accounted i (by omega)

/-- The socket of a channel that is removed from the poller. -/
theorem SocketsKept.removed (h : s.SocketsKept) {ch : ConnectChannel} (hremoved : Removed s t ch)
    (hch : ch.socket ∈ s.registered) : t.InHand ch.socket := by
  have hempty : t.registered = ∅ := by
    rw [hremoved.registered_eq, Finset.eq_empty_iff_forall_notMem]
    intro i hi
    obtain ⟨hne, hi⟩ := Finset.mem_erase.mp hi
    exact hne (h.eq_socket hremoved.owned hi)
  have hkept : t.ChannelKept := by
    refine ⟨?_, ?_, hremoved.newConnectionCallback_eq.trans h.callback⟩
    · simp [hempty]
    · rw [hremoved.fds_eq, hremoved.closed_eq, hremoved.handed_eq]
      exact h.unused
  obtain ⟨hlt, -⟩ := h.owned _ hch
  refine ⟨hkept, by rwa [hremoved.fds_eq], by simp [hempty], ?_, fun i hi hne => ?_⟩
  · rw [hremoved.closed_eq, hremoved.handed_eq]
    exact h.count_of_registered hch (h.accounted _ hlt)
  · rw [hremoved.fds_eq] at hi
    unfold Accounted
    rw [hkept.owns_iff, hempty, hremoved.closed_eq, hremoved.handed_eq]
    have hnot : i ∉ s.registered := fun hmem => hne (h.eq_socket hremoved.owned hmem)
    exact .inr ⟨by simp, h.count_of_not_registered hnot (h.accounted i hi)⟩

/-! ## The functions -/

/-- `connect` keeps account of its socket exactly if its answer is one that the switch goes on
with. -/
theorem SocketsKept.connect (h : s.SocketsKept) (answer : ConnectAnswer) :
    (s.KeepsNewSocket answer → (s.connect answer).SocketsKept) ∧
      (¬ s.KeepsNewSocket answer → ¬ (s.connect answer).AllAccounted) := by
  rcases connect_cases s answer with ⟨hnone, heq⟩ | ⟨fd, hsome, hcase⟩
  · rw [heq]
    exact ⟨fun _ => h, fun hnot => absurd (.inl hnone) hnot⟩
  have hhand := h.createSocket fd
  rcases hcase with ⟨hconnecting, hwaits, heq⟩ | ⟨hconnecting, hretries, heq⟩ | ⟨hdrop, heq⟩
  · have hset : (s.createSocket fd).connecting_ = true := hconnecting
    rw [heq]
    refine ⟨fun hkeeps => ?_, fun hnot => ?_⟩
    · apply hhand.connecting hset
      rcases hkeeps with hnone | ⟨-, hretries | ⟨-, hfree⟩⟩
      · exact absurd hnone hsome
      · exact absurd hwaits hretries.not_waits
      · exact hfree
    · apply hhand.connecting_loses hset
      by_contra hfree
      exact hnot (.inr ⟨hconnecting, .inr ⟨hwaits, hfree⟩⟩)
  · have hset : (s.createSocket fd).connecting_ = true := hconnecting
    rw [heq]
    exact ⟨fun _ => hhand.retry hset, fun hnot => absurd (.inr ⟨hconnecting, .inl hretries⟩) hnot⟩
  · rw [heq]
    refine ⟨fun hkeeps => ?_, fun _ => hhand.not_accounted⟩
    rcases hkeeps with hnone | ⟨hset, hr | ⟨hw, -⟩⟩
    · exact absurd hnone hsome
    · exact absurd ⟨hset, .inr hr⟩ hdrop
    · exact absurd ⟨hset, .inl hw⟩ hdrop

/-- `startInLoop` keeps account of the sockets exactly if its `connect` does. -/
theorem SocketsKept.startInLoop (h : s.SocketsKept) (answer : ConnectAnswer) :
    Decides (s.StartKeepsSockets answer) (.ok (s.startInLoop answer) : Except ConnectorFault _)
      SocketsKept (¬ ·.AllAccounted) := by
  obtain ⟨hkeep, hlose⟩ := h.connect answer
  exact startInLoop_decides h hkeep hlose

/-- `resetChannel` keeps account of the sockets exactly if it drops no registered channel. -/
theorem SocketsKept.resetChannel (h : s.SocketsKept) :
    Decides (¬ s.ChannelRegistered) (.ok s.resetChannel : Except ConnectorFault _)
      SocketsKept (¬ ·.AllAccounted) := by
  have hregistered : s.resetChannel.registered = s.registered := rfl
  apply decides_ok
  · intro hfree
    have hempty := h.registered_eq_empty hfree
    have hkept : s.resetChannel.ChannelKept := by
      refine ⟨?_, h.unused, h.callback⟩
      simp [hregistered, hempty]
    refine ⟨hkept, fun i hi => ?_⟩
    have hold := h.accounted i hi
    unfold Accounted at hold ⊢
    rwa [hkept.owns_iff, hregistered, ← h.owns_iff]
  · intro hnot haccounted
    obtain ⟨i, hi⟩ := h.channelRegistered_iff.mp (not_not.mp hnot)
    have hlt := (h.owned i hi).1
    have hcount := h.count_of_registered hi (h.accounted i hlt)
    rcases haccounted i hlt with ⟨⟨⟨ch, hch, -⟩, -⟩, -⟩ | ⟨-, hone⟩
    · cases hch
    · simp only [Connector.resetChannel] at hone
      omega

/-- An event keeps account of the sockets exactly if no attempt fails while `connecting_` is
clear. -/
theorem SocketsKept.handlerEvent (h : s.SocketsKept) {ch : ConnectChannel}
    (howned : s.connectChannel = some ch) (hch : ch.socket ∈ s.registered) (e : ConnectEvent) :
    Decides (s.EventKeepsSocket e) (s.handlerEvent e) SocketsKept (¬ ·.AllAccounted) := by
  rcases handlerEvent_cases howned e with ⟨hretries, t, hremoved, hok⟩ |
    ⟨hreports, t, hremoved, hok⟩ | ⟨hretries, -, hok⟩
  · have hhand := h.removed hremoved hch
    rw [hok]
    apply decides_ok
    · intro hguard
      exact hhand.retry (hremoved.connecting_eq.trans (hguard hretries))
    · intro hnot
      have hclear : t.connecting_ = false := by
        rw [hremoved.connecting_eq]
        by_contra hset
        exact hnot fun _ => by simpa using hset
      rw [retry_of_not hclear]
      exact hhand.not_accounted
  · rw [hok]
    apply decides_ok
    · intro _
      exact (h.removed hremoved hch).reportConnection
    · intro hnot
      exact absurd (fun hretries => absurd hretries hreports.not_retriesAt) hnot
  · rw [hok]
    apply decides_ok
    · intro _
      exact h
    · intro hnot
      exact absurd (fun hr => absurd hr hretries) hnot

/-! ## Runs -/

/-- The guard decides whether the step loses a socket. -/
theorem SocketsKept.step (h : s.SocketsKept) (a : ConnectorAction) :
    Decides (s.KeepsSockets a) (s.step a) SocketsKept (¬ ·.AllAccounted) := by
  apply step_decides ?_ ?_ ?_ ?_ ?_ ?_ h
  · exact fun hs hsame => hs.of_same hsame
  · exact fun _ hlost => hlost
  · intro s hs i hi
    obtain ⟨-, ch, hch, hsocket, -⟩ := hs.owned i hi
    exact ⟨ch, hch, hsocket⟩
  · exact fun answer hs => hs.startInLoop answer
  · exact fun hs => hs.resetChannel
  · exact fun e hs howned hch => hs.handlerEvent howned hch e

end

/-- A new connector has no sockets. -/
theorem socketsKept_init : ({} : Connector).SocketsKept where
  owned := by simp [registered]
  unused := by simp
  callback := rfl
  accounted := fun i hi => absurd hi (Nat.not_lt_zero i)

/-- In the runs in which no step drops a socket, and in no others, every socket is owned by
the connect channel, closed once or handed over once after each step. -/
theorem allAccounted_iff_keepsSockets (actions : List ConnectorAction) :
    Always step AllAccounted {} actions ↔ Guarded step KeepsSockets {} actions := by
  apply along_iff_of_decides ?_ socketsKept_init
  intro s a hs
  exact (hs.step a).imp Iff.rfl (fun t ht => ⟨ht, ht.accounted⟩) fun _ => id

/-- A first attempt is refused, a second one made by the timer succeeds. -/
example : Guarded step KeepsSockets {}
    [.start true (.failed 5 einprogress),
      .event 0 ⟨pollOut ||| pollErr ||| pollHup, econnrefused, false⟩,
      .functor .noSocket, .timer 0 (.failed 5 einprogress), .event 1 ⟨pollOut, 0, false⟩] := by
  decide +kernel

/-- The network is unreachable. -/
theorem not_allAccounted : ¬ Always step AllAccounted {} [.start true (.failed 5 101)] := by
  intro h
  rcases h.1 _ rfl 0 (by decide) with ⟨⟨⟨ch, hch, -⟩, -⟩, -⟩ | ⟨-, hcount⟩
  · cases hch
  · exact absurd hcount (by decide)

end Connector

end Reactor
