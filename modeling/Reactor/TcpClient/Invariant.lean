import Reactor.TcpClient.Basic

/-!
# What a careful client keeps

The connector, the poller and the pointers to the connections, as they are in every state
of a run in which no registered channel is destroyed. Between two functions of the
connector a socket can be in hand: it is neither registered nor handed over.
-/

namespace Reactor

open Transition

namespace TcpClient

/-- Every entry of `channelMap_` refers to a channel that exists and has the descriptor,
and every registered channel is found under its descriptor. -/
def NoStale (s : TcpClient) : Prop :=
  (∀ fd p, s.poll.channelMap.lookup fd = some p →
    ∃ c, p = some c ∧ s.Exists c ∧ (s.poll.channels c).fd = fd) ∧
  ∀ c ∈ s.registered, s.poll.channelMap.lookup (s.poll.channels c).fd = some (some c)

/-- User code keeps the connection that `OnConnection` takes `connPtr_` away from. -/
def KeepsConnection (s : TcpClient) : Prop := ∀ n ∈ s.connPtr, n ∈ s.userRefs

/-- `startInLoop` does not replace a connect channel that is registered. -/
def StartKeepsChannel (c : Connector) (answer : ConnectAnswer) : Prop :=
  c.state = .disConnected → c.connecting_ = true → answer.Waits → ¬ c.ChannelRegistered

/-- No channel is destroyed while it is registered: the connector neither replaces nor
resets a registered connect channel, and user code keeps the connections that have been
replaced. -/
def Careful (s : TcpClient) : ClientAction → Prop
  | .connector action => s.connector.Meets StartKeepsChannel (fun c => ¬ c.ChannelRegistered)
      (fun c e => c.ReportsAt e → s.KeepsConnection) action
  | .handleClose _ answer => StartKeepsChannel s.connector.setRestarted answer
  | .release n => s.connPtr = some n ∨ .connection n ∉ s.registered
  | .setEvents _ _ | .removal | .retain _ => True

instance (s : TcpClient) : Decidable s.KeepsConnection :=
  inferInstanceAs (Decidable (∀ n ∈ s.connPtr, _))

instance (c : Connector) (answer : ConnectAnswer) : Decidable (StartKeepsChannel c answer) :=
  inferInstanceAs (Decidable (_ → _))

instance (c : Connector) (e : ConnectEvent) : Decidable (c.ReportsAt e) :=
  inferInstanceAs (Decidable (_ ∧ _))

instance (s : TcpClient) (a : ClientAction) : Decidable (s.Careful a) := by
  unfold Careful
  split
  · infer_instance
  · infer_instance
  · infer_instance
  · infer_instance
  · infer_instance
  · infer_instance

/-- The poller succeeds exactly if the client does. -/
theorem liftPoll_eq_ok {α : Type} {x : Except Fault α} {a : α} :
    liftPoll x = .ok a ↔ x = .ok a := by
  cases x <;> simp [liftPoll]

section

variable {s t : TcpClient} {c : Connector} {n m : ℕ} {answer : ConnectAnswer}

/-- The channels of the connector are those of its attempts. -/
@[simp] theorem connect_mem_registered :
    .connect n ∈ s.registered ↔ n ∈ s.connector.registered := by
  simp [registered]

/-- The channels of the connections are those that the calls have registered. -/
@[simp] theorem connection_mem_registered :
    .connection n ∈ s.registered ↔ n ∈ Reactor.registered s.pollerCalls := by
  simp [registered]

/-- The channel for wakeups is always registered. -/
@[simp] theorem wakeup_mem_registered : .wakeup ∈ s.registered := by simp [registered]

/-- The channel of the timers is always registered. -/
@[simp] theorem timer_mem_registered : .timer ∈ s.registered := by simp [registered]

/-- The connector holds the socket: it has neither been closed nor handed over. -/
structure Held (c : Connector) (n : ℕ) : Prop where
  lt : n < c.fds.length
  not_closed : n ∉ c.closed
  not_handed : n ∉ c.handed

/-- What holds of every state of a careful run. -/
structure Sound (s : TcpClient) : Prop where
  retry_eq : s.retry = true
  removals_eq : s.removals = []
  callback : s.connector.newConnectionCallback = true
  serves : s.poll.Serves s.registered
  attempt : ∀ n ∈ s.connector.registered,
    Held s.connector n ∧ ∃ ch ∈ s.connector.connectChannel, ch.socket = n
  established : ∀ n, n ∈ Reactor.registered s.pollerCalls ↔ n ∈ s.connector.handed
  alive : ∀ n ∈ s.connector.handed,
    n < s.connector.fds.length ∧ n ∉ s.connector.closed ∧ s.Alive n
  closed_lt : ∀ n ∈ s.connector.closed, n < s.connector.fds.length
  unused : ∀ n < s.connector.fds.length, n ∉ s.connector.handed →
    (s.poll.channels (.connection n)).index < 0
  fd_eq : ∀ n (fd : ℕ), s.connector.fds[n]? = some fd →
    (s.poll.channels (.connect n)).fd = fd ∧ (s.poll.channels (.connection n)).fd = fd
  loop_fd_eq : (s.poll.channels .wakeup).fd = s.wakeupFd ∧ (s.poll.channels .timer).fd = s.timerFd

/-- Every registered channel exists. -/
theorem Sound.exists_of_registered (h : s.Sound) {d : ClientChannel} (hd : d ∈ s.registered) :
    s.Exists d := by
  cases d with
  | wakeup => trivial
  | timer => trivial
  | connect n => exact (h.attempt n (connect_mem_registered.mp hd)).2
  | connection n =>
    have hhanded := (h.established n).mp (connection_mem_registered.mp hd)
    exact (h.alive n hhanded).2.2

/-- In a sound state no stale channel is registered. -/
theorem Sound.noStale (h : s.Sound) : s.NoStale := by
  constructor
  · intro fd p hlookup
    obtain ⟨d, hd, hfd, rfl⟩ := (h.serves.holds fd p).mp hlookup
    exact ⟨d, rfl, h.exists_of_registered hd, hfd⟩
  · intro d hd
    exact h.serves.holds.lookup hd

/-- The descriptor of a registered channel is open. -/
theorem Sound.fdOpen (h : s.Sound) {d : ClientChannel} (hd : d ∈ s.registered) :
    ∃ fd : ℕ, (s.poll.channels d).fd = fd ∧ s.FdOpen fd := by
  cases d with
  | wakeup => exact ⟨s.wakeupFd, h.loop_fd_eq.1, .inl rfl⟩
  | timer => exact ⟨s.timerFd, h.loop_fd_eq.2, .inr (.inl rfl)⟩
  | connect n =>
    obtain ⟨hheld, -⟩ := h.attempt n (connect_mem_registered.mp hd)
    have hget := List.getElem?_eq_getElem hheld.lt
    exact ⟨_, (h.fd_eq n _ hget).1, .inr (.inr ⟨n, hheld.lt, hget, hheld.not_closed,
      fun hhanded => absurd hhanded hheld.not_handed⟩)⟩
  | connection n =>
    obtain ⟨hlt, hclosed, halive⟩ := h.alive n
      ((h.established n).mp (connection_mem_registered.mp hd))
    have hget := List.getElem?_eq_getElem hlt
    exact ⟨_, (h.fd_eq n _ hget).2, .inr (.inr ⟨n, hlt, hget, hclosed, fun _ => halive⟩)⟩

/-- Only the channel that `connectChannel_` owns can be registered. -/
theorem Sound.registered_connector (h : s.Sound) {ch : ConnectChannel}
    (howned : s.connector.connectChannel = some ch) (hn : n ∈ s.connector.registered) :
    n = ch.socket := by
  obtain ⟨-, ch', hch', rfl⟩ := h.attempt n hn
  obtain rfl := Option.some.inj (howned.symm.trans hch')
  rfl

/-- An idle connector has registered no channel. -/
theorem Sound.connector_idle (h : s.Sound) (hfree : ¬ s.connector.ChannelRegistered) :
    n ∉ s.connector.registered := by
  intro hn
  obtain ⟨-, ch, hch, rfl⟩ := h.attempt n hn
  exact hfree ⟨ch, hch, hn⟩

/-- A socket that has not been handed over has no connection registered. -/
theorem Sound.notMem_registered (h : s.Sound) (hn : n ∉ s.connector.handed) :
    .connection n ∉ s.registered := by
  rw [connection_mem_registered, h.established]
  exact hn

/-- A call of the poller leaves the descriptors of the channels alone. -/
theorem Sound.fd_eq_of_step (h : s.Sound) {op : PollerOp ClientChannel} {poll : Poll ClientChannel}
    (hpoll : s.poll.step op = .ok poll) {fd : ℕ} (hget : s.connector.fds[n]? = some fd) :
    (poll.channels (.connect n)).fd = fd ∧ (poll.channels (.connection n)).fd = fd := by
  rw [Poll.fd_step hpoll, Poll.fd_step hpoll]
  exact h.fd_eq n fd hget

/-- The two channels of the loop keep their descriptors. -/
theorem Sound.loop_fd_eq_of_step (h : s.Sound) {op : PollerOp ClientChannel}
    {poll : Poll ClientChannel} (hpoll : s.poll.step op = .ok poll) :
    (poll.channels .wakeup).fd = s.wakeupFd ∧ (poll.channels .timer).fd = s.timerFd := by
  rw [Poll.fd_step hpoll, Poll.fd_step hpoll]
  exact h.loop_fd_eq

/-- A call of the poller for another channel leaves the channel of a connection to come new. -/
theorem Sound.unused_of_step (h : s.Sound) {op : PollerOp ClientChannel} {poll : Poll ClientChannel}
    (hpoll : s.poll.step op = .ok poll) (hne : .connection n ≠ op.channel)
    (hlt : n < s.connector.fds.length) (hn : n ∉ s.connector.handed) :
    (poll.channels (.connection n)).index < 0 := by
  rw [h.serves.channels_eq hpoll hne (h.notMem_registered hn)]
  exact h.unused n hlt hn

/-! ## Steps of the connector that leave the poller alone -/

/-- The connector takes up a call. -/
theorem Sound.of_same (h : s.Sound) (hsame : Connector.SameAttempt s.connector c) :
    Sound { s with connector := c } := by
  have hregistered : registered { s with connector := c } = s.registered := by
    simp only [registered, hsame.registered_eq]
  refine ⟨h.retry_eq, h.removals_eq, hsame.callback_eq.trans h.callback, ?_, ?_, ?_, ?_, ?_, ?_, ?_,
    h.loop_fd_eq⟩
  · rw [hregistered]
    exact h.serves
  · intro n hn
    rw [hsame.registered_eq] at hn
    obtain ⟨hheld, hchannel⟩ := h.attempt n hn
    refine ⟨⟨?_, ?_, ?_⟩, ?_⟩
    · exact hsame.fds_eq.symm ▸ hheld.lt
    · exact hsame.closed_eq.symm ▸ hheld.not_closed
    · exact hsame.handed_eq.symm ▸ hheld.not_handed
    · exact hsame.connectChannel_eq.symm ▸ hchannel
  · intro n
    rw [hsame.handed_eq]
    exact h.established n
  · rw [hsame.handed_eq, hsame.fds_eq, hsame.closed_eq]
    exact h.alive
  · rw [hsame.closed_eq, hsame.fds_eq]
    exact h.closed_lt
  · rw [hsame.handed_eq, hsame.fds_eq]
    exact h.unused
  · rw [hsame.fds_eq]
    exact h.fd_eq

/-- `resetChannel` when no connect channel is registered. -/
theorem Sound.resetChannel (h : s.Sound) (hfree : ¬ s.connector.ChannelRegistered) :
    Sound { s with connector := s.connector.resetChannel } :=
  { h with
    attempt := fun _ hn => absurd hn (h.connector_idle hfree) }

/-- A socket that a function of the connector has in hand, with channels of its own to come. -/
structure InHand (s : TcpClient) (n : ℕ) : Prop extends Sound s where
  held : Held s.connector n
  not_registered : n ∉ s.connector.registered
  fd_ne : ∀ d ∈ s.registered, (s.poll.channels d).fd ≠ (s.poll.channels (.connection n)).fd

/-- The socket is closed, or dropped. -/
theorem InHand.retry (h : s.InHand n) : Sound { s with connector := s.connector.retry n } := by
  unfold Connector.retry
  split
  · have hregistered : ∀ m ∈ s.connector.registered, m ≠ n := by
      rintro m hm rfl
      exact h.not_registered hm
    have hhanded : ∀ m ∈ s.connector.handed, m ≠ n := by
      rintro m hm rfl
      exact h.held.not_handed hm
    exact { h.toSound with
      attempt := fun m hm => by
        obtain ⟨hheld, hchannel⟩ := h.attempt m hm
        exact ⟨⟨hheld.lt, by simp [hheld.not_closed, hregistered m hm], hheld.not_handed⟩, hchannel⟩
      alive := fun m hm => by
        obtain ⟨hlt, hclosed, halive⟩ := h.alive m hm
        exact ⟨hlt, by simp [hclosed, hhanded m hm], halive⟩
      closed_lt := fun m hm => by
        rcases List.mem_append.mp hm with hm | hm
        · exact h.closed_lt m hm
        · exact List.mem_singleton.mp hm ▸ h.held.lt }
  · exact h.toSound

/-! ## A new socket -/

/-- The state after `createNonBlockingSockfd`. -/
def created (s : TcpClient) (fd : ℕ) : TcpClient :=
  { s with
    connector := s.connector.createSocket fd
    poll := { s.poll with channels := addChannels s.poll.channels s.connector.fds.length [fd] } }

/-- A new socket touches the channels of no other. -/
theorem channels_created (s : TcpClient) (fd : ℕ) {d : ClientChannel}
    (hconnect : d ≠ .connect s.connector.fds.length)
    (hconnection : d ≠ .connection s.connector.fds.length) :
    (s.created fd).poll.channels d = s.poll.channels d := by
  simp [created, addChannels, hconnect, hconnection]

/-- The channel for connecting gets the descriptor of its socket. -/
theorem channels_created_connect (s : TcpClient) (fd : ℕ) :
    (s.created fd).poll.channels (.connect s.connector.fds.length) = { fd } := by
  simp [created, addChannels]

/-- The channel of the connection gets the descriptor of its socket. -/
theorem channels_created_connection (s : TcpClient) (fd : ℕ) :
    (s.created fd).poll.channels (.connection s.connector.fds.length) = { fd } := by
  simp [created, addChannels]

/-- The next number names no socket yet. -/
theorem Sound.held_created (h : s.Sound) (fd : ℕ) :
    Held (s.created fd).connector s.connector.fds.length where
  lt := by
    have hlength := Connector.length_createSocket s.connector fd
    simp only [TcpClient.created]
    omega
  not_closed hn := absurd (h.closed_lt _ hn) (Nat.lt_irrefl _)
  not_handed hn := absurd (h.alive _ hn).1 (Nat.lt_irrefl _)

/-- The next socket is not registered yet. -/
theorem Sound.length_notMem_registered (h : s.Sound) :
    s.connector.fds.length ∉ s.connector.registered :=
  fun hn => absurd (h.attempt _ hn).1.lt (Nat.lt_irrefl _)

/-- The channels to come are new, so that none of them is registered. -/
theorem Sound.channels_created (h : s.Sound) (fd : ℕ) {d : ClientChannel} (hd : d ∈ s.registered) :
    (s.created fd).poll.channels d = s.poll.channels d := by
  apply TcpClient.channels_created
  · rintro rfl
    exact h.length_notMem_registered (connect_mem_registered.mp hd)
  · rintro rfl
    exact (h.held_created fd).not_handed ((h.established _).mp (connection_mem_registered.mp hd))

/-- Channels have the descriptors of their sockets. -/
theorem Sound.fd_eq_created (h : s.Sound) {fd fd' : ℕ}
    (hget : (s.created fd).connector.fds[n]? = some fd') :
    ((s.created fd).poll.channels (.connect n)).fd = fd' ∧
      ((s.created fd).poll.channels (.connection n)).fd = fd' := by
  change (s.connector.fds ++ [fd])[n]? = some fd' at hget
  by_cases hself : n = s.connector.fds.length
  · subst hself
    rw [List.getElem?_concat_length] at hget
    obtain rfl := Option.some.inj hget
    rw [channels_created_connect, channels_created_connection]
    exact ⟨rfl, rfl⟩
  · have hlt := (List.getElem?_eq_some_iff.mp hget).1
    rw [List.length_append, List.length_singleton] at hlt
    rw [List.getElem?_append_left (by omega)] at hget
    rw [TcpClient.channels_created s fd (by simpa using hself) (by simp),
      TcpClient.channels_created s fd (by simp) (by simpa using hself)]
    exact h.fd_eq n fd' hget

/-- The connection of a socket that has not been handed over has not been added to the poller. -/
theorem Sound.unused_created (h : s.Sound) {fd : ℕ} (hlt : n < (s.created fd).connector.fds.length)
    (hn : n ∉ s.connector.handed) : ((s.created fd).poll.channels (.connection n)).index < 0 := by
  by_cases hself : n = s.connector.fds.length
  · subst hself
    rw [channels_created_connection]
    change (-1 : ℤ) < 0
    omega
  · have hlength := Connector.length_createSocket s.connector fd
    simp only [TcpClient.created] at hlt
    rw [TcpClient.channels_created s fd (by simp) (by simpa using hself)]
    exact h.unused n (by omega) hn

/-- A new socket with a free descriptor is in hand. -/
theorem Sound.created (h : s.Sound) {fd : ℕ} (hfd : ¬ s.FdOpen fd) :
    (s.created fd).InHand s.connector.fds.length := by
  have hlength : (s.created fd).connector.fds.length = s.connector.fds.length + 1 :=
    Connector.length_createSocket s.connector fd
  have hsound : (s.created fd).Sound := by
    refine ⟨h.retry_eq, h.removals_eq, h.callback,
      h.serves.congr rfl fun d => h.channels_created fd, ?_,
      h.established, ?_, ?_, fun _ => h.unused_created, fun _ _ => h.fd_eq_created, h.loop_fd_eq⟩
    · intro n hn
      obtain ⟨hheld, hchannel⟩ := h.attempt n hn
      have hlt := hheld.lt
      exact ⟨⟨by omega, hheld.not_closed, hheld.not_handed⟩, hchannel⟩
    · intro n hn
      obtain ⟨hlt, hrest⟩ := h.alive n hn
      exact ⟨by omega, hrest⟩
    · intro n hn
      have hlt := h.closed_lt n hn
      omega
  refine ⟨hsound, h.held_created fd, h.length_notMem_registered, fun d hd => ?_⟩
  obtain ⟨fd', hfd', hopen⟩ := h.fdOpen hd
  rw [h.channels_created fd hd, channels_created_connection, hfd']
  intro heq
  exact hfd (Int.ofNat.inj heq ▸ hopen)

/-- `connecting` registers the channel of the socket, when no other is registered. -/
theorem InHand.connecting (h : s.InHand n) (hconnecting : s.connector.connecting_ = true)
    (hfree : ¬ s.connector.ChannelRegistered)
    (hindex : (s.poll.channels (.connect n)).index < 0) {mask : EventMask}
    {poll : Poll ClientChannel}
    (hpoll : s.poll.step (.update (.connect n) mask) = .ok poll) :
    Sound { s with connector := s.connector.connecting n, poll } := by
  have hconnector := Connector.registered_connecting hconnecting n
  obtain ⟨channel, -, heq⟩ := Connector.connecting_eq hconnecting n
  have hregistered : registered { s with connector := s.connector.connecting n, poll } =
      insert (.connect n) s.registered := by
    ext d
    cases d with
    | wakeup => simp
    | timer => simp
    | connect m => simp [hconnector]
    | connection m => simp
  obtain ⟨fd, hget⟩ : ∃ fd, s.connector.fds[n]? = some fd := ⟨_, List.getElem?_eq_getElem h.held.lt⟩
  obtain ⟨hfdConnect, hfdConnection⟩ := h.fd_eq n fd hget
  refine ⟨h.retry_eq, h.removals_eq, ?_, ?_, ?_, ?_, ?_, ?_, ?_, ?_, h.loop_fd_eq_of_step hpoll⟩
  · rw [heq]
    exact h.callback
  · rw [hregistered]
    apply h.serves.update_new hindex ?_ hpoll
    rw [hfdConnect, ← hfdConnection]
    exact h.fd_ne
  · intro m hm
    rw [hconnector] at hm
    rcases Finset.mem_insert.mp hm with rfl | hm
    · rw [heq]
      exact ⟨⟨h.held.lt, h.held.not_closed, h.held.not_handed⟩, _, rfl, rfl⟩
    · exact absurd hm (h.connector_idle hfree)
  · rw [heq]
    exact h.established
  · rw [heq]
    exact h.alive
  · rw [heq]
    exact h.closed_lt
  · rw [heq]
    intro m hm hnot
    exact h.unused_of_step hpoll (by simp [PollerOp.channel]) hm hnot
  · rw [heq]
    intro m fd' hm
    exact h.fd_eq_of_step hpoll hm

/-! ## Calls of the poller for registered channels -/

/-- A registered channel gets another mask. -/
theorem Sound.update (h : s.Sound) {d : ClientChannel} (hd : d ∈ s.registered) {mask : EventMask}
    {poll : Poll ClientChannel} (hpoll : s.poll.step (.update d mask) = .ok poll) :
    Sound { s with poll } :=
  { h with
    serves := h.serves.update hd hpoll
    unused := fun n hlt hn => by
      have hne : .connection n ≠ d := fun heq => h.notMem_registered hn (heq ▸ hd)
      exact h.unused_of_step hpoll hne hlt hn
    fd_eq := fun _ _ hget => h.fd_eq_of_step hpoll hget
    loop_fd_eq := h.loop_fd_eq_of_step hpoll }

/-- The channel of an established connection gets another mask. -/
theorem Sound.callPoller (h : s.Sound) (hn : n ∈ s.connector.handed) {mask : EventMask}
    (hok : s.callPoller (.update n mask) = .ok t) :
    t.Sound ∧ t.connector = s.connector := by
  obtain ⟨poll, hlift, hret⟩ := bind_eq_ok.mp hok
  obtain rfl := Except.ok.inj hret
  have hpoll := liftPoll_eq_ok.mp hlift
  have hcalls := (h.established n).mpr hn
  have hsame : Reactor.registered (s.pollerCalls ++ [.update n mask]) =
      Reactor.registered s.pollerCalls := by
    simp [register, hcalls]
  have hupdated := h.update (connection_mem_registered.mpr hcalls) hpoll
  refine ⟨{ hupdated with serves := ?_, established := ?_ }, rfl⟩
  · have hregistered : registered { s with
        poll, pollerCalls := s.pollerCalls ++ [.update n mask] } = s.registered := by
      simp only [registered, hsame]
    rw [hregistered]
    exact hupdated.serves
  · rw [hsame]
    exact hupdated.established

/-- The connect channel is removed, and its socket is in hand. -/
theorem Sound.removed (h : s.Sound) {ch : ConnectChannel}
    (hremoved : Connector.Removed s.connector c ch) (hch : ch.socket ∈ s.connector.registered)
    {mask : EventMask} {poll poll' : Poll ClientChannel}
    (hupdate : s.poll.step (.update (.connect ch.socket) mask) = .ok poll)
    (hremove : poll.step (.remove (.connect ch.socket)) = .ok poll') :
    InHand { s with connector := c, poll := poll' } ch.socket := by
  have hmem : .connect ch.socket ∈ s.registered := connect_mem_registered.mpr hch
  have hupdated := h.update hmem hupdate
  have hregistered : registered { s with connector := c, poll := poll' } =
      s.registered.erase (.connect ch.socket) := by
    ext d
    cases d with
    | wakeup => simp
    | timer => simp
    | connect m => simp [hremoved.registered_eq]
    | connection m => simp
  have hfds (d : ClientChannel) : (poll'.channels d).fd = (s.poll.channels d).fd :=
    (Poll.fd_step hremove d).trans (Poll.fd_step hupdate d)
  have hserves := hupdated.serves.remove hmem (Poll.pollfds_ne_nil_of_update hupdate) hremove
  obtain ⟨hheld, -⟩ := h.attempt _ hch
  have hconnector (m : ℕ) : m ∉ c.registered := by
    rw [hremoved.registered_eq, Finset.mem_erase]
    rintro ⟨hne, hm⟩
    exact hne (h.registered_connector hremoved.owned hm)
  have hsound : Sound { s with connector := c, poll := poll' } := by
    refine ⟨h.retry_eq, h.removals_eq, hremoved.newConnectionCallback_eq.trans h.callback,
      ?_, ?_, ?_,
      ?_, ?_, ?_, ?_, hupdated.loop_fd_eq_of_step hremove⟩
    · rw [hregistered]
      exact hserves
    · intro m hm
      exact absurd hm (hconnector m)
    · rw [hremoved.handed_eq]
      exact h.established
    · rw [hremoved.handed_eq, hremoved.fds_eq, hremoved.closed_eq]
      exact h.alive
    · rw [hremoved.closed_eq, hremoved.fds_eq]
      exact h.closed_lt
    · rw [hremoved.handed_eq, hremoved.fds_eq]
      intro m hlt hm
      exact hupdated.unused_of_step hremove (by simp [PollerOp.channel]) hlt hm
    · rw [hremoved.fds_eq]
      intro m fd hget
      exact hupdated.fd_eq_of_step hremove hget
  refine ⟨hsound, ⟨?_, ?_, ?_⟩, hconnector _, fun d hd => ?_⟩
  · exact hremoved.fds_eq.symm ▸ hheld.lt
  · exact hremoved.closed_eq.symm ▸ hheld.not_closed
  · exact hremoved.handed_eq.symm ▸ hheld.not_handed
  · rw [hregistered] at hd
    obtain ⟨hne, hd⟩ := Finset.mem_erase.mp hd
    obtain ⟨hconnect, hconnection⟩ := h.fd_eq _ _ (List.getElem?_eq_getElem hheld.lt)
    simp only [hfds, hconnection, ← hconnect]
    intro heq
    exact hne (h.serves.holds.eq_of_fd_eq hmem hd heq)

/-- `OnConnection` registers the new connection; the one before is kept by user code. -/
theorem InHand.onConnection (h : s.InHand n) (hkeep : s.KeepsConnection)
    (hok : { s with connector := s.connector.reportConnection n }.onConnection n = .ok t) :
    t.Sound := by
  obtain ⟨poll, hlift, hret⟩ := bind_eq_ok.mp hok
  obtain rfl := Except.ok.inj hret
  have hpoll : s.poll.step (.update (.connection n)
      (s.poll.channels (.connection n)).enableReading.events) = .ok poll := liftPoll_eq_ok.mp hlift
  have heq := Connector.reportConnection_eq h.callback n
  have hhanded (m : ℕ) : m ∈ s.connector.handed ++ [n] ↔ m ∈ s.connector.handed ∨ m = n := by
    rw [List.mem_append, List.mem_singleton]
  rw [heq]
  refine ⟨h.retry_eq, h.removals_eq, h.callback, ?_, ?_, ?_, ?_, h.closed_lt, ?_,
    fun _ _ hget => h.fd_eq_of_step hpoll hget, h.loop_fd_eq_of_step hpoll⟩
  · have hserves := h.serves.update_new (h.unused n h.held.lt h.held.not_handed) h.fd_ne hpoll
    convert hserves using 1
    ext d
    cases d with
    | wakeup => simp
    | timer => simp
    | connect m =>
      simp
      rfl
    | connection m => simp [register]
  · intro m hm
    obtain ⟨hheld, hchannel⟩ := h.attempt m hm
    have hne : m ≠ n := by
      rintro rfl
      exact h.not_registered hm
    exact ⟨⟨hheld.lt, hheld.not_closed, by simp [hheld.not_handed, hne]⟩, hchannel⟩
  · intro m
    dsimp only
    rw [hhanded, registered_append, register, Finset.mem_insert, h.established, or_comm]
  · intro m hm
    rcases (hhanded m).mp hm with hm | rfl
    · obtain ⟨hlt, hclosed, halive⟩ := h.alive m hm
      refine ⟨hlt, hclosed, ?_⟩
      rcases halive with hptr | hrest
      · exact .inr (.inl (hkeep m hptr))
      · exact .inr hrest
    · exact ⟨h.held.lt, h.held.not_closed, .inl rfl⟩
  · intro m hlt hm
    dsimp only at hm ⊢
    rw [hhanded, not_or] at hm
    exact h.unused_of_step hpoll (by simpa [PollerOp.channel] using hm.2) hlt hm.1

end

end TcpClient

end Reactor
