import Reactor.Connector.Basic

/-!
# What the functions of the connector do

The poller's part of each function, and the ways in which `connect` and the handlers of
the connect channel go on with a socket.
-/

namespace Reactor

open Transition

/-- `connect` goes on with `connecting`. -/
def ConnectAnswer.Waits : ConnectAnswer → Prop
  | .failed _ errno => errno ∈ waitErrnos
  | .noSocket | .connected _ => False

/-- `connect` goes on with `retry`. -/
def ConnectAnswer.Retries : ConnectAnswer → Prop
  | .failed _ errno => errno ∈ retryErrnos
  | .noSocket | .connected _ => False

instance : DecidablePred ConnectAnswer.Waits := fun answer => by
  unfold ConnectAnswer.Waits
  split
  · infer_instance
  · infer_instance
  · infer_instance

instance : DecidablePred ConnectAnswer.Retries := fun answer => by
  unfold ConnectAnswer.Retries
  split
  · infer_instance
  · infer_instance
  · infer_instance

/-- An error that leads to a retry does not lead to waiting. -/
theorem notMem_waitErrnos {errno : ℕ} (h : errno ∈ retryErrnos) : errno ∉ waitErrnos := by
  simp only [retryErrnos, List.mem_cons, List.not_mem_nil, or_false] at h
  rcases h with rfl | rfl
  · decide
  · decide

/-- An answer that leads to a retry does not lead to waiting. -/
theorem ConnectAnswer.Retries.not_waits {answer : ConnectAnswer} (h : answer.Retries) :
    ¬ answer.Waits := by
  cases answer with
  | noSocket => exact id
  | connected fd => exact id
  | failed fd errno => exact notMem_waitErrnos h

namespace Connector

variable {s t : Connector} {answer : ConnectAnswer} {n : ℕ}

/-- A new socket is not registered. -/
@[simp] theorem registered_createSocket (s : Connector) (fd : ℕ) :
    (s.createSocket fd).registered = s.registered := rfl

/-- A new socket is one descriptor more. -/
theorem length_createSocket (s : Connector) (fd : ℕ) :
    (s.createSocket fd).fds.length = s.fds.length + 1 := by
  simp [createSocket]

/-- A connector that is not to connect does not wait for a connection. -/
theorem connecting_of_not (h : s.connecting_ = false) (sockfd : ℕ) : s.connecting sockfd = s := by
  simp [connecting, h]

/-- A connector that is not to connect does not retry, and the descriptor stays open. -/
theorem retry_of_not (h : s.connecting_ = false) (sockfd : ℕ) : s.retry sockfd = s := by
  simp [retry, h]

/-- `connecting` gives the socket to a new channel, which it registers for writing. -/
theorem connecting_eq (h : s.connecting_ = true) (sockfd : ℕ) :
    ∃ channel : Channel, channel.isWriting = true ∧ s.connecting sockfd = { s with
      state := .connecting
      connectChannel := some { socket := sockfd, channel }
      pollerCalls := s.pollerCalls ++ [.update sockfd channel.events] } :=
  ⟨_, Channel.isWriting_enableWriting _, by rw [connecting, if_pos h]⟩

/-- A retry closes the socket and starts a timer with the delay, which is doubled. -/
theorem retry_eq (h : s.connecting_ = true) (sockfd : ℕ) : s.retry sockfd = { s with
    state := .disConnected
    closed := s.closed ++ [sockfd]
    timers := s.timers ++ [s.retryDelayms]
    retryDelayms := min (2 * s.retryDelayms) kMaxRetryDelay } := by
  rw [retry, if_pos h]

/-- With a callback the connection is handed over. -/
theorem reportConnection_eq (h : s.newConnectionCallback = true) (sockfd : ℕ) :
    s.reportConnection sockfd = { s with state := .connected, handed := s.handed ++ [sockfd] } := by
  simp [reportConnection, h]

/-- The socket of the attempt is registered. -/
theorem registered_connecting (h : s.connecting_ = true) (sockfd : ℕ) :
    (s.connecting sockfd).registered = insert sockfd s.registered := by
  obtain ⟨channel, -, heq⟩ := connecting_eq h sockfd
  rw [heq, registered, registered_append]
  rfl

/-- A retry leaves the registered channels to its caller. -/
@[simp] theorem registered_retry (s : Connector) (sockfd : ℕ) :
    (s.retry sockfd).registered = s.registered := by
  unfold retry
  split
  · rfl
  · rfl

/-- Reporting a connection leaves the registered channels to its caller. -/
@[simp] theorem registered_reportConnection (s : Connector) (sockfd : ℕ) :
    (s.reportConnection sockfd).registered = s.registered := by
  simp only [reportConnection]
  split
  · rfl
  · rfl

/-- What `connect` does with the socket that it creates. -/
theorem connect_cases (s : Connector) (answer : ConnectAnswer) :
    answer = .noSocket ∧ s.connect answer = s ∨
    ∃ fd, answer ≠ .noSocket ∧
      (s.connecting_ = true ∧ answer.Waits ∧
          s.connect answer = (s.createSocket fd).connecting s.fds.length ∨
        s.connecting_ = true ∧ answer.Retries ∧
          s.connect answer = (s.createSocket fd).retry s.fds.length ∨
        ¬ (s.connecting_ = true ∧ (answer.Waits ∨ answer.Retries)) ∧
          s.connect answer = s.createSocket fd) := by
  cases answer with
  | noSocket => exact .inl ⟨rfl, rfl⟩
  | connected fd =>
    have hdrop : ¬ (s.connecting_ = true ∧
        ((ConnectAnswer.connected fd).Waits ∨ (ConnectAnswer.connected fd).Retries)) :=
      fun h => h.2.elim id id
    exact .inr ⟨fd, ConnectAnswer.noConfusion, .inr (.inr ⟨hdrop, rfl⟩)⟩
  | failed fd errno =>
    refine .inr ⟨fd, ConnectAnswer.noConfusion, ?_⟩
    by_cases hconnecting : s.connecting_ = true
    · by_cases hwait : errno ∈ waitErrnos
      · exact .inl ⟨hconnecting, hwait, by simp [connect, hwait]⟩
      · by_cases hretry : errno ∈ retryErrnos
        · exact .inr (.inl ⟨hconnecting, hretry, by simp [connect, hwait, hretry]⟩)
        · refine .inr (.inr ⟨fun h => h.2.elim hwait hretry, ?_⟩)
          simp [connect, hwait, hretry]
    · refine .inr (.inr ⟨fun h => hconnecting h.1, ?_⟩)
      have hclear : (s.createSocket fd).connecting_ = false :=
        Bool.eq_false_of_not_eq_true hconnecting
      simp only [connect, connecting_of_not hclear, retry_of_not hclear, ite_self]

/-- The channel of the socket has been removed from the poller, and its reset queued. -/
structure Removed (s t : Connector) (ch : ConnectChannel) : Prop where
  owned : s.connectChannel = some ch
  connecting_eq : t.connecting_ = s.connecting_
  starts_eq : t.starts = s.starts
  stopped_eq : t.stopped = s.stopped
  functors_eq : t.functors = s.functors ++ [.resetChannel]
  state_eq : t.state = s.state
  newConnectionCallback_eq : t.newConnectionCallback = s.newConnectionCallback
  connectChannel_eq : t.connectChannel = some { ch with channel := ch.channel.disableAll }
  timers_eq : t.timers = s.timers
  fds_eq : t.fds = s.fds
  closed_eq : t.closed = s.closed
  handed_eq : t.handed = s.handed
  pollerCalls_eq : ∃ mask, t.pollerCalls =
    s.pollerCalls ++ [.update ch.socket mask, .remove ch.socket]

/-- The removed channel, and no other one, is registered no longer. -/
theorem Removed.registered_eq {ch : ConnectChannel} (h : Removed s t ch) :
    t.registered = s.registered.erase ch.socket := by
  obtain ⟨mask, hcalls⟩ := h.pollerCalls_eq
  rw [registered, hcalls, registered, Reactor.registered, List.foldl_append]
  simp [register, Reactor.registered, Finset.erase_insert_eq_erase]

/-- The channel that the connector owns can be removed. -/
theorem removeAndReset_of_owned {ch : ConnectChannel} (h : s.connectChannel = some ch) :
    ∃ t, s.removeAndReset = .ok (t, ch.socket) ∧ Removed s t ch := by
  unfold removeAndReset
  rw [h]
  exact ⟨_, rfl, h, rfl, rfl, rfl, rfl, rfl, rfl, rfl, rfl, rfl, rfl, rfl, _, rfl⟩

/-- The event of the connect channel leads to `retry`. -/
def RetriesAt (s : Connector) (e : ConnectEvent) : Prop :=
  e.revents.has pollHup = true ∧ s.state = .disConnected ∨
    e.revents.has pollOut = true ∧ s.state = .connecting ∧
      (e.socketError ≠ 0 ∨ e.selfConnect = true)

/-- The event of the connect channel leads to `newConnectionCallback_`. -/
def ReportsAt (s : Connector) (e : ConnectEvent) : Prop :=
  e.revents.has pollOut = true ∧ s.state = .connecting ∧ e.socketError = 0 ∧ e.selfConnect = false

/-- An event does not report a connection and retry. -/
theorem ReportsAt.not_retriesAt {e : ConnectEvent} (h : s.ReportsAt e) : ¬ s.RetriesAt e := by
  obtain ⟨-, hstate, herror, hself⟩ := h
  simp [RetriesAt, hstate, herror, hself]

instance (s : Connector) (e : ConnectEvent) : Decidable (s.RetriesAt e) :=
  inferInstanceAs (Decidable (_ ∨ _))

/-- An error in the state `DisConnected` removes the channel and retries. -/
theorem handleError_of_disConnected {ch : ConnectChannel} (hstate : s.state = .disConnected)
    (h : s.connectChannel = some ch) :
    ∃ t, Removed s t ch ∧ s.handleError = .ok (t.retry ch.socket) := by
  obtain ⟨t, hremove, hremoved⟩ := removeAndReset_of_owned h
  refine ⟨t, hremoved, ?_⟩
  rw [handleError, if_pos hstate, hremove]
  rfl

/-- In other states an error is ignored. -/
theorem handleError_of_ne (h : s.state ≠ .disConnected) : s.handleError = .ok s := by
  rw [handleError, if_neg h]

/-- A writable channel is ignored unless the connector is connecting. -/
theorem handleWrite_of_ne (h : s.state ≠ .connecting) (e : ConnectEvent) :
    s.handleWrite e = .ok s := by
  rw [handleWrite, if_neg h]

/-- A writable channel is removed; the attempt is retried if it has failed, and reported
otherwise. -/
theorem handleWrite_of_connecting {ch : ConnectChannel} (hstate : s.state = .connecting)
    (h : s.connectChannel = some ch) (e : ConnectEvent) :
    ∃ t, Removed s t ch ∧ s.handleWrite e =
      .ok (if e.socketError ≠ 0 ∨ e.selfConnect = true then t.retry ch.socket
        else t.reportConnection ch.socket) := by
  obtain ⟨t, hremove, hremoved⟩ := removeAndReset_of_owned h
  refine ⟨t, hremoved, ?_⟩
  rw [handleWrite, if_pos hstate, hremove, ok_bind]
  by_cases herror : e.socketError ≠ 0
  · simp [herror]
  · by_cases hself : e.selfConnect = true
    · simp [hself]
    · simp [herror, hself]

/-- After `handleError` has found the state `DisConnected` it still is. -/
theorem Removed.state_retry {ch : ConnectChannel} (h : Removed s t ch)
    (hstate : s.state = .disConnected) : (t.retry n).state = .disConnected := by
  unfold retry
  split
  · rfl
  · rw [h.state_eq, hstate]

/-- What an event of the channel that `connectChannel_` owns leads to. -/
theorem handlerEvent_cases {ch : ConnectChannel} (h : s.connectChannel = some ch)
    (e : ConnectEvent) :
    (s.RetriesAt e ∧ ∃ t, Removed s t ch ∧ s.handlerEvent e = .ok (t.retry ch.socket)) ∨
    (s.ReportsAt e ∧ ∃ t, Removed s t ch ∧ s.handlerEvent e = .ok (t.reportConnection ch.socket)) ∨
    (¬ s.RetriesAt e ∧ ¬ s.ReportsAt e ∧ s.handlerEvent e = .ok s) := by
  unfold handlerEvent
  cases hstate : s.state with
  | disConnected =>
    obtain ⟨t, hremoved, herror⟩ := handleError_of_disConnected hstate h
    by_cases hhup : e.revents.has pollHup = true
    · refine .inl ⟨.inl ⟨hhup, hstate⟩, t, hremoved, ?_⟩
      rw [if_pos hhup, herror, ok_bind]
      dsimp only
      rw [handleWrite_of_ne (by simp [hremoved.state_retry hstate]), ite_self]
    · refine .inr (.inr ⟨by simp [RetriesAt, hhup, hstate], by simp [ReportsAt, hstate], ?_⟩)
      rw [if_neg hhup, ok_bind]
      dsimp only
      rw [handleWrite_of_ne (by simp [hstate]), ite_self]
  | connecting =>
    obtain ⟨t, hremoved, hwrite⟩ := handleWrite_of_connecting hstate h e
    rw [handleError_of_ne (by simp [hstate]), ite_self, ok_bind]
    dsimp only
    by_cases hout : e.revents.has pollOut = true
    · rw [if_pos hout, hwrite]
      by_cases herror : e.socketError ≠ 0 ∨ e.selfConnect = true
      · refine .inl ⟨.inr ⟨hout, hstate, herror⟩, t, hremoved, ?_⟩
        rw [if_pos herror]
      · have hreports : e.socketError = 0 ∧ e.selfConnect = false := by simpa using herror
        refine .inr (.inl ⟨⟨hout, hstate, hreports⟩, t, hremoved, ?_⟩)
        rw [if_neg herror]
    · refine .inr (.inr ⟨by simp [RetriesAt, hout, hstate], by simp [ReportsAt, hout], ?_⟩)
      rw [if_neg hout]
  | connected =>
    refine .inr (.inr ⟨by simp [RetriesAt, hstate], by simp [ReportsAt, hstate], ?_⟩)
    rw [handleError_of_ne (by simp [hstate]), ite_self, ok_bind]
    dsimp only
    rw [handleWrite_of_ne (by simp [hstate]), ite_self]

/-! ## Steps -/

/-- Steps that concern neither the sockets nor the channel; a timer may be taken off. -/
structure SameAttempt (s t : Connector) : Prop where
  connectChannel_eq : t.connectChannel = s.connectChannel
  pollerCalls_eq : t.pollerCalls = s.pollerCalls
  fds_eq : t.fds = s.fds
  closed_eq : t.closed = s.closed
  handed_eq : t.handed = s.handed
  callback_eq : t.newConnectionCallback = s.newConnectionCallback
  timers_le : t.timers.length ≤ s.timers.length

/-- Setting `connecting_` touches no attempt. -/
theorem sameAttempt_setConnecting (s : Connector) : SameAttempt s s.setConnecting :=
  ⟨rfl, rfl, rfl, rfl, rfl, rfl, Nat.le_refl _⟩

/-- Restarting touches no attempt before it connects. -/
theorem sameAttempt_setRestarted (s : Connector) : SameAttempt s s.setRestarted :=
  ⟨rfl, rfl, rfl, rfl, rfl, rfl, Nat.le_refl _⟩

/-- A `start` of another thread touches no attempt. -/
theorem sameAttempt_start (s : Connector) (answer : ConnectAnswer) :
    SameAttempt s (s.start false answer) :=
  ⟨rfl, rfl, rfl, rfl, rfl, rfl, Nat.le_refl _⟩

/-- `stop` touches no attempt. -/
theorem sameAttempt_stop (s : Connector) (inLoop : Bool) : SameAttempt s (s.stop inLoop) := by
  cases inLoop with
  | true => exact ⟨rfl, rfl, rfl, rfl, rfl, rfl, Nat.le_refl _⟩
  | false => exact ⟨rfl, rfl, rfl, rfl, rfl, rfl, Nat.le_refl _⟩

/-- The first functor leaves the queue. -/
theorem sameAttempt_functors (s : Connector) (functors : List ConnectorFunctor) :
    SameAttempt s { s with functors } :=
  ⟨rfl, rfl, rfl, rfl, rfl, rfl, Nat.le_refl _⟩

/-- Neither does `stopInLoop`, whatever is queued beside it. -/
theorem sameAttempt_stopInLoop (s : Connector) (functors : List ConnectorFunctor) (starts : ℕ) :
    SameAttempt s ({ s with functors }.stopInLoop starts) :=
  ⟨rfl, rfl, rfl, rfl, rfl, rfl, Nat.le_refl _⟩

/-- A timer expires. -/
theorem sameAttempt_timers (s : Connector) (i : ℕ) :
    SameAttempt s { s with timers := s.timers.eraseIdx i } :=
  ⟨rfl, rfl, rfl, rfl, rfl, rfl, List.length_eraseIdx_le ..⟩

/-- The same attempt has the same registered channel. -/
theorem SameAttempt.registered_eq (h : SameAttempt s t) : t.registered = s.registered := by
  rw [registered, registered, h.pollerCalls_eq]

/-- The functions that the action calls find their conditions satisfied: `start` that of
`startInLoop`, `reset` that of `resetChannel`, and `event` that of the handlers. -/
def Meets (start : Connector → ConnectAnswer → Prop) (reset : Connector → Prop)
    (event : Connector → ConnectEvent → Prop) (s : Connector) : ConnectorAction → Prop
  | .start inLoop answer => inLoop = true → start s.setConnecting answer
  | .stop _ => True
  | .restart answer => start s.setRestarted answer
  | .timer i answer => i < s.timers.length → start { s with timers := s.timers.eraseIdx i } answer
  | .functor answer =>
    match s.functors with
    | .startInLoop :: functors => start { s with functors } answer
    | .resetChannel :: functors => reset { s with functors }
    | .stopInLoop _ :: _ | [] => True
  | .event socket e => socket ∈ s.registered → event s e

section

variable {start : Connector → ConnectAnswer → Prop} {reset : Connector → Prop}
  {event : Connector → ConnectEvent → Prop}

instance [∀ s answer, Decidable (start s answer)] [∀ s, Decidable (reset s)]
    [∀ s e, Decidable (event s e)] (a : ConnectorAction) :
    Decidable (s.Meets start reset event a) := by
  unfold Meets
  split
  · infer_instance
  · infer_instance
  · infer_instance
  · infer_instance
  · split
    · infer_instance
    · infer_instance
    · infer_instance
    · infer_instance
  · infer_instance

/-- What decides how `connect` ends decides, in the state `DisConnected`, how `startInLoop`
ends. -/
theorem startInLoop_decides {Cond : Prop} {Good Bad : Connector → Prop} (h : Good s)
    (hkeep : Cond → Good (s.connect answer)) (hlose : ¬ Cond → Bad (s.connect answer)) :
    Decides (s.state = .disConnected → Cond)
      (.ok (s.startInLoop answer) : Except ConnectorFault _) Good Bad := by
  unfold startInLoop
  split
  · next hstate =>
    apply decides_ok
    · intro hcond
      exact hkeep (hcond hstate)
    · intro hnot
      exact hlose fun hcond => hnot fun _ => hcond
  · next hstate =>
    apply decides_ok
    · intro _
      exact h
    · intro hnot
      exact absurd (fun heq => absurd heq hstate) hnot

/-- Conditions that decide how the functions end decide how the steps end. -/
theorem step_decides {Inv : Connector → Prop} {Bad : Connector → Connector → Prop}
    (hsame : ∀ {s t}, Inv s → SameAttempt s t → Inv t)
    (hbad : ∀ {s s' t}, SameAttempt s s' → Bad s' t → Bad s t)
    (howned : ∀ {s}, Inv s → ∀ i ∈ s.registered, ∃ ch ∈ s.connectChannel, ch.socket = i)
    (hstart : ∀ {s} answer, Inv s →
      Decides (start s answer) (.ok (s.startInLoop answer) : Except ConnectorFault _) Inv (Bad s))
    (hreset : ∀ {s}, Inv s →
      Decides (reset s) (.ok s.resetChannel : Except ConnectorFault _) Inv (Bad s))
    (hevent : ∀ {s ch} e, Inv s → s.connectChannel = some ch → ch.socket ∈ s.registered →
      Decides (event s e) (s.handlerEvent e) Inv (Bad s))
    (h : Inv s) (a : ConnectorAction) :
    Decides (s.Meets start reset event a) (s.step a) Inv (Bad s) := by
  have hquiet {u : Connector} (hok : s.step a = .ok u) (hu : SameAttempt s u)
      (hmeets : s.Meets start reset event a) :
      Decides (s.Meets start reset event a) (s.step a) Inv (Bad s) := by
    apply decides_of_good hmeets
    intro t ht
    obtain rfl := Except.ok.inj (hok.symm.trans ht)
    exact hsame h hu
  have hset := sameAttempt_setConnecting s
  cases a with
  | start inLoop answer =>
    cases inLoop with
    | true =>
      exact (hstart answer (hsame h hset)).imp (by simp [Meets]) (fun _ => id) fun _ => hbad hset
    | false => exact hquiet rfl (sameAttempt_start s answer) (by simp [Meets])
  | stop inLoop => exact hquiet rfl (sameAttempt_stop s inLoop) trivial
  | restart answer =>
    have hrestarted := sameAttempt_setRestarted s
    exact (hstart answer (hsame h hrestarted)).imp Iff.rfl (fun _ => id) fun _ => hbad hrestarted
  | timer i answer =>
    rw [step]
    split
    · next hi =>
      have hpopped := sameAttempt_timers s i
      apply (hstart answer (hsame h hpopped)).imp ?_ (fun _ => id) fun _ => hbad hpopped
      exact ⟨fun hmeets => hmeets hi, fun hmeets _ => hmeets⟩
    · next hi => exact decides_error fun hlt => absurd hlt hi
  | functor answer =>
    rw [step, Meets]
    cases hfunctors : s.functors with
    | nil => exact decides_error trivial
    | cons functor functors =>
      have hpopped := sameAttempt_functors s functors
      cases functor with
      | startInLoop =>
        exact (hstart answer (hsame h hpopped)).imp Iff.rfl (fun _ => id) fun _ => hbad hpopped
      | stopInLoop starts =>
        apply decides_ok
        · intro _
          exact hsame h (sameAttempt_stopInLoop s functors starts)
        · intro hnot
          exact absurd trivial hnot
      | resetChannel =>
        exact (hreset (hsame h hpopped)).imp Iff.rfl (fun _ => id) fun _ => hbad hpopped
  | event socket e =>
    rw [step]
    split
    · next hsocket =>
      obtain ⟨ch, hch, rfl⟩ := howned h socket hsocket
      rw [if_pos ⟨ch, hch, rfl⟩]
      apply (hevent e h hch hsocket).imp ?_ (fun _ => id) fun _ => id
      exact ⟨fun hmeets => hmeets hsocket, fun hmeets _ => hmeets⟩
    · next hsocket => exact decides_error fun hmem => absurd hmem hsocket

end

end Connector

end Reactor
