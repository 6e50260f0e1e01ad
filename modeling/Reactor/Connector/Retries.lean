import Reactor.Connector.Attempts

/-!
# The retries of the connector

Each retry waits twice as long as the one before, up to `kMaxRetryDelay`; only `restart` begins
with `kInitretryDelay` again. A connector that is neither stopped nor connected has its next
attempt before it, as long as `connect` gives an answer that the `switch` goes on with and no
attempt fails while `connecting_` is clear.
-/

namespace Reactor

open Transition

namespace Connector

/-! ## The delays -/

/-- The delay of the retry behind `k` others. -/
def backoff (k : ℕ) : ℕ := min (kInitretryDelay * 2 ^ k) kMaxRetryDelay

/-- The first delay is 500 milliseconds. -/
theorem backoff_zero : backoff 0 = kInitretryDelay := by decide

/-- The delay is doubled up to the largest one, where it stays. -/
theorem backoff_succ (k : ℕ) : min (2 * backoff k) kMaxRetryDelay = backoff (k + 1) := by
  have hdouble : kInitretryDelay * 2 ^ (k + 1) = 2 * (kInitretryDelay * 2 ^ k) := by
    rw [pow_succ']
    exact Nat.mul_left_comm kInitretryDelay 2 (2 ^ k)
  rw [backoff, backoff, hdouble]
  omega

/-- The timers that the step leaves pending. -/
def leftTimers (s : Connector) : ConnectorAction → List ℕ
  | .timer i _ => s.timers.eraseIdx i
  | _ => s.timers

/-- The delay of the next retry, as the step finds it. -/
def nextDelay (s : Connector) : ConnectorAction → ℕ
  | .restart _ => kInitretryDelay
  | _ => s.retryDelayms

/-- The delays that still count after the step. -/
def sinceRestart (waited : List ℕ) : ConnectorAction → List ℕ
  | .restart _ => []
  | _ => waited

/-- A step, with the delays of the timers that have been started since the last restart. -/
def stepWaiting (s : List ℕ × Connector) (a : ConnectorAction) :
    Except ConnectorFault (List ℕ × Connector) :=
  (s.2.step a).map fun t =>
    (sinceRestart s.1 a ++ t.timers.drop (s.2.leftTimers a).length, t)

/-- No timer is started, or one with the delay `delay`, which then doubles. -/
def Backs (timers : List ℕ) (delay : ℕ) (t : Connector) : Prop :=
  t.timers = timers ∧ t.retryDelayms = delay ∨
    t.timers = timers ++ [delay] ∧ t.retryDelayms = min (2 * delay) kMaxRetryDelay

/-- The delays since the last restart double, and those of the pending timers are such delays. -/
structure BackedOff (s : List ℕ × Connector) : Prop where
  waited : s.1 = (List.range s.1.length).map backoff
  next : s.2.retryDelayms = backoff s.1.length
  pending : ∀ delay ∈ s.2.timers, ∃ k, delay = backoff k

section

variable {s t : Connector} {a : ConnectorAction} {answer : ConnectAnswer} {n : ℕ}

/-- Doing nothing starts no timer. -/
theorem backs_refl (s : Connector) : Backs s.timers s.retryDelayms s := .inl ⟨rfl, rfl⟩

/-- A retry starts one timer at most, with the current delay. -/
theorem backs_retry (s : Connector) (sockfd : ℕ) :
    Backs s.timers s.retryDelayms (s.retry sockfd) := by
  unfold retry
  split
  · exact .inr ⟨rfl, rfl⟩
  · exact backs_refl s

/-- Waiting for a connection starts no timer. -/
theorem backs_connecting (s : Connector) (sockfd : ℕ) :
    Backs s.timers s.retryDelayms (s.connecting sockfd) := by
  unfold connecting
  split
  · exact .inl ⟨rfl, rfl⟩
  · exact backs_refl s

/-- `startInLoop` starts one timer at most. -/
theorem backs_startInLoop (s : Connector) (answer : ConnectAnswer) :
    Backs s.timers s.retryDelayms (s.startInLoop answer) := by
  unfold startInLoop
  split
  · rcases connect_cases s answer with ⟨-, heq⟩ | ⟨fd, -, ⟨-, -, heq⟩ | ⟨-, -, heq⟩ | ⟨-, heq⟩⟩
    · rw [heq]
      exact backs_refl s
    · rw [heq]
      exact backs_connecting (s.createSocket fd) s.fds.length
    · rw [heq]
      exact backs_retry (s.createSocket fd) s.fds.length
    · rw [heq]
      exact .inl ⟨rfl, rfl⟩
  · exact backs_refl s

/-- Removing a channel touches neither timers nor delay nor state. -/
theorem removeAndReset_eq_ok (hok : s.removeAndReset = .ok (t, n)) :
    t.timers = s.timers ∧ t.retryDelayms = s.retryDelayms ∧ t.state = s.state := by
  unfold removeAndReset at hok
  split at hok
  · obtain ⟨rfl, -⟩ := Prod.mk.inj (Except.ok.inj hok)
    exact ⟨rfl, rfl, rfl⟩
  · cases hok

/-- `handleError` starts a timer only in the state `DisConnected`, which it does not leave. -/
theorem backs_handleError (hok : s.handleError = .ok t) :
    Backs s.timers s.retryDelayms t ∧ (t = s ∨ t.state = .disConnected) := by
  unfold handleError at hok
  split at hok
  · next hstate =>
    obtain ⟨⟨u, sockfd⟩, hremove, hu⟩ := bind_eq_ok.mp hok
    obtain rfl := Except.ok.inj hu
    obtain ⟨htimers, hdelay, hsame⟩ := removeAndReset_eq_ok hremove
    refine ⟨?_, .inr ?_⟩
    · rw [← htimers, ← hdelay]
      exact backs_retry u sockfd
    · unfold retry
      split
      · rfl
      · exact hsame.trans hstate
  · obtain rfl := Except.ok.inj hok
    exact ⟨backs_refl s, .inl rfl⟩

/-- A writable channel starts one timer at most. -/
theorem backs_handleWrite {e : ConnectEvent} (hok : s.handleWrite e = .ok t) :
    Backs s.timers s.retryDelayms t := by
  unfold handleWrite at hok
  split at hok
  · obtain ⟨⟨u, sockfd⟩, hremove, hu⟩ := bind_eq_ok.mp hok
    obtain ⟨htimers, hdelay, -⟩ := removeAndReset_eq_ok hremove
    rw [← htimers, ← hdelay]
    dsimp only at hu
    split at hu
    · obtain rfl := Except.ok.inj hu
      exact backs_retry u sockfd
    · split at hu
      · obtain rfl := Except.ok.inj hu
        exact backs_retry u sockfd
      · obtain rfl := Except.ok.inj hu
        unfold reportConnection
        dsimp only
        split
        · exact .inl ⟨rfl, rfl⟩
        · exact .inl ⟨rfl, rfl⟩
  · obtain rfl := Except.ok.inj hok
    exact backs_refl s

/-- An event is handled as an error first and as a writable channel then. -/
theorem handlerEvent_eq (s : Connector) (e : ConnectEvent) :
    s.handlerEvent e = (if e.revents.has pollHup then s.handleError else .ok s) >>= fun t =>
      if e.revents.has pollOut then t.handleWrite e else .ok t := by
  by_cases hhup : e.revents.has pollHup = true
  · simp only [handlerEvent, hhup, if_true]
  · simp only [handlerEvent, hhup, Bool.false_eq_true, if_false, ok_bind]

/-- An event starts one timer at most, since `handleWrite` follows no retry of `handleError`. -/
theorem backs_handlerEvent {e : ConnectEvent} (hok : s.handlerEvent e = .ok t) :
    Backs s.timers s.retryDelayms t := by
  rw [handlerEvent_eq] at hok
  obtain ⟨u, herror, hwrite⟩ := bind_eq_ok.mp hok
  have hu : Backs s.timers s.retryDelayms u ∧ (u = s ∨ u.state = .disConnected) := by
    split at herror
    · exact backs_handleError herror
    · obtain rfl := Except.ok.inj herror
      exact ⟨backs_refl s, .inl rfl⟩
  split at hwrite
  · rcases hu with ⟨hbacks, rfl | hstate⟩
    · exact backs_handleWrite hwrite
    · rw [handleWrite_of_ne (by simp [hstate])] at hwrite
      obtain rfl := Except.ok.inj hwrite
      exact hbacks
  · obtain rfl := Except.ok.inj hwrite
    exact hu.1

/-- What a step does to the timers and to the delay. -/
theorem backs_step (hok : s.step a = .ok t) : Backs (s.leftTimers a) (s.nextDelay a) t := by
  cases a with
  | start inLoop answer =>
    obtain rfl := Except.ok.inj hok
    cases inLoop with
    | true => exact backs_startInLoop s.setConnecting answer
    | false => exact .inl ⟨rfl, rfl⟩
  | stop inLoop =>
    obtain rfl := Except.ok.inj hok
    cases inLoop with
    | true => exact .inl ⟨rfl, rfl⟩
    | false => exact .inl ⟨rfl, rfl⟩
  | restart answer =>
    obtain rfl := Except.ok.inj hok
    exact backs_startInLoop s.setRestarted answer
  | timer i answer =>
    obtain ⟨-, rfl⟩ := ite_eq_ok.mp hok
    exact backs_startInLoop { s with timers := s.timers.eraseIdx i } answer
  | functor answer =>
    rw [Connector.step] at hok
    split at hok
    · next functor functors hfunctors =>
      obtain rfl := Except.ok.inj hok
      cases functor with
      | startInLoop => exact backs_startInLoop { s with functors } answer
      | stopInLoop starts => exact .inl ⟨rfl, rfl⟩
      | resetChannel => exact .inl ⟨rfl, rfl⟩
    · cases hok
  | event socket e =>
    obtain ⟨-, hok⟩ := guard_eq_ok.mp hok
    obtain ⟨-, hok⟩ := guard_eq_ok.mp hok
    exact backs_handlerEvent hok

end

/-- The delays that count are those of the first retries, and the next one follows them. -/
theorem BackedOff.sinceRestart {s : List ℕ × Connector} (h : BackedOff s) (a : ConnectorAction) :
    sinceRestart s.1 a = (List.range (sinceRestart s.1 a).length).map backoff ∧
      s.2.nextDelay a = backoff (sinceRestart s.1 a).length := by
  cases a with
  | restart answer => exact ⟨rfl, backoff_zero.symm⟩
  | start inLoop answer | stop inLoop | timer i answer | functor answer | event socket e =>
    exact ⟨h.waited, h.next⟩

/-- The timers that a step leaves have been there before. -/
theorem mem_of_mem_leftTimers {s : Connector} {a : ConnectorAction} {delay : ℕ}
    (h : delay ∈ s.leftTimers a) : delay ∈ s.timers := by
  cases a with
  | timer i answer => exact List.mem_of_mem_eraseIdx h
  | start inLoop answer | stop inLoop | restart answer | functor answer | event socket e => exact h

/-- Whatever a step does, the delays passed on have doubled from the first one. -/
theorem BackedOff.step {s t : List ℕ × Connector} (h : BackedOff s) {a : ConnectorAction}
    (hok : stepWaiting s a = .ok t) : BackedOff t := by
  obtain ⟨u, hstep, rfl⟩ := map_eq_ok.mp hok
  obtain ⟨hwaited, hnext⟩ := h.sinceRestart a
  have hleft (delay : ℕ) (hdelay : delay ∈ s.2.leftTimers a) : ∃ k, delay = backoff k :=
    h.pending delay (mem_of_mem_leftTimers hdelay)
  rcases backs_step hstep with ⟨htimers, hdelay⟩ | ⟨htimers, hdelay⟩
  · rw [htimers, List.drop_length, List.append_nil]
    exact ⟨hwaited, hdelay.trans hnext, by rwa [htimers]⟩
  · rw [htimers, List.drop_left]
    rw [hnext] at htimers hdelay ⊢
    refine ⟨?_, ?_, fun delay hmem => ?_⟩
    · rw [List.length_append, List.length_singleton, List.range_succ, List.map_append, ← hwaited]
      rfl
    · rw [hdelay, backoff_succ, List.length_append, List.length_singleton]
    · rw [htimers] at hmem
      rcases List.mem_append.mp hmem with hmem | hmem
      · exact hleft delay hmem
      · exact ⟨_, List.mem_singleton.mp hmem⟩

/-- A step starts one timer at most. -/
def StartsOne (s : Connector) (a : ConnectorAction) (t : Connector) : Prop :=
  ∃ started, t.timers = s.leftTimers a ++ started ∧ started.length ≤ 1

/-- A step that backs off starts one timer at most. -/
theorem Backs.startsOne {s t : Connector} {a : ConnectorAction} {delay : ℕ}
    (h : Backs (s.leftTimers a) delay t) : s.StartsOne a t := by
  rcases h with ⟨htimers, -⟩ | ⟨htimers, -⟩
  · exact ⟨[], by rw [htimers, List.append_nil], Nat.zero_le _⟩
  · exact ⟨[delay], htimers, Nat.le_refl _⟩

/-- In every run of a connector the retries since the last restart wait for 500 ms, 1 s, 2 s and
so on, up to 50 s, whatever starts, stops and events come between them, a step starts one timer at
most, and every pending timer has such a delay. -/
theorem retries_back_off (callback : Bool) (actions : List ConnectorAction) :
    Along stepWaiting (fun s a r => ∀ t, r = .ok t →
      t.1 = (List.range t.1.length).map backoff ∧ s.2.StartsOne a t.2 ∧
        ∀ delay ∈ t.2.timers, ∃ k, delay = backoff k)
      ([], { newConnectionCallback := callback }) actions := by
  apply along_of_guarded BackedOff ?_ ?_ ⟨rfl, backoff_zero.symm, by simp⟩ guarded_true
  · intro s a h _ t hok
    have hnext := h.step hok
    obtain ⟨u, hstep, rfl⟩ := map_eq_ok.mp hok
    exact ⟨hnext.waited, (backs_step hstep).startsOne, hnext.pending⟩
  · exact fun s a t h _ hok => h.step hok

/-! ## The next attempt -/

/-- The next attempt is before the connector: in the state `DisConnected` as a functor or a timer
of `startInLoop`, in the state `Connecting` as its own registered channel. -/
structure Pursued (s : Connector) : Prop where
  pending : s.connecting_ = true → s.state = .disConnected →
    .startInLoop ∈ s.functors ∨ s.timers ≠ []
  channel : s.state = .connecting → s.ChannelRegistered

/-- `connect` gives an answer that its `switch` goes on with, if it is asked at all. -/
def Answers (s : Connector) (answer : ConnectAnswer) : Prop :=
  s.connecting_ = true → s.state = .disConnected → answer.Waits ∨ answer.Retries

/-- No attempt fails while `connecting_` is clear. -/
def FailsWanted (s : Connector) (e : ConnectEvent) : Prop := s.RetriesAt e → s.connecting_ = true

/-- The step makes no second attempt and gives up none. -/
def Persists (s : Connector) (a : ConnectorAction) : Prop :=
  s.Alone a ∧ s.Meets Answers (fun _ => True) FailsWanted a

instance (s : Connector) (answer : ConnectAnswer) : Decidable (s.Answers answer) :=
  inferInstanceAs (Decidable (_ → _))

instance (s : Connector) (e : ConnectEvent) : Decidable (s.FailsWanted e) :=
  inferInstanceAs (Decidable (_ → _))

instance (s : Connector) (a : ConnectorAction) : Decidable (s.Persists a) :=
  inferInstanceAs (Decidable (_ ∧ s.Meets _ _ _ a))

/-- The step uses no channel that is not there, and leaves the next attempt before the
connector. -/
def KeepsTrying (_ : Connector) (_ : ConnectorAction) (r : Except ConnectorFault Connector) :
    Prop :=
  (∀ fault, r ≠ .error (.fault fault)) ∧ ∀ t, r = .ok t → t.Pursued

section

variable {s t : Connector} {a : ConnectorAction} {answer : ConnectAnswer} {ch : ConnectChannel}

/-- `startInLoop` goes on with the attempt, or begins one that it can go on with. -/
theorem pursued_startInLoop (hchannel : s.state = .connecting → s.ChannelRegistered)
    (hanswers : s.Answers answer) : (s.startInLoop answer).Pursued := by
  unfold startInLoop
  split
  · next hstate =>
    have hquiet (fd : ℕ) (hidle : ¬ s.connecting_ = true) : (s.createSocket fd).Pursued := by
      refine ⟨fun hset => absurd hset hidle, fun hconnecting => ?_⟩
      exact absurd (hstate.symm.trans hconnecting) (by decide)
    rcases connect_cases s answer with ⟨rfl, heq⟩ | ⟨fd, -, hcase⟩
    · rw [heq]
      refine ⟨fun hset hdisconnected => ?_, hchannel⟩
      exact (hanswers hset hdisconnected).elim False.elim False.elim
    · rcases hcase with ⟨hset, -, heq⟩ | ⟨hset, -, heq⟩ | ⟨hdrop, heq⟩
      · rw [heq]
        have hregistered := registered_connecting (s := s.createSocket fd) hset s.fds.length
        obtain ⟨channel, -, hnew⟩ := connecting_eq (s := s.createSocket fd) hset s.fds.length
        refine ⟨fun _ hdisconnected => ?_, fun _ => ?_⟩
        · rw [hnew] at hdisconnected
          cases hdisconnected
        · refine ⟨{ socket := s.fds.length, channel }, by rw [hnew]; rfl, ?_⟩
          rw [hregistered]
          exact Finset.mem_insert_self ..
      · rw [heq, retry_eq (s := s.createSocket fd) hset]
        exact ⟨fun _ _ => .inr (by simp), fun hconnecting => by cases hconnecting⟩
      · rw [heq]
        exact hquiet fd fun hset => hdrop ⟨hset, hanswers hset hstate⟩
  · next hstate => exact ⟨fun _ hdisconnected => absurd hdisconnected hstate, hchannel⟩

/-- A failed attempt is followed by a timer, and a successful one is the last. -/
theorem Pursued.handlerEvent (h : s.Pursued) (howned : s.connectChannel = some ch)
    {e : ConnectEvent} (hwanted : s.FailsWanted e) :
    ∃ t, s.handlerEvent e = .ok t ∧ t.Pursued := by
  rcases handlerEvent_cases howned e with
    ⟨hretries, t, hremoved, hok⟩ | ⟨-, t, -, hok⟩ | ⟨-, -, hok⟩
  · have hset : t.connecting_ = true := hremoved.connecting_eq.trans (hwanted hretries)
    refine ⟨_, hok, ?_⟩
    rw [retry_eq hset]
    exact ⟨fun _ _ => .inr (by simp), fun hconnecting => by cases hconnecting⟩
  · have hconnected : (t.reportConnection ch.socket).state = .connected := by
      simp only [reportConnection]
      split
      · rfl
      · rfl
    refine ⟨_, hok, fun _ hdisconnected => ?_, fun hconnecting => ?_⟩
    · rw [hconnected] at hdisconnected
      cases hdisconnected
    · rw [hconnected] at hconnecting
      cases hconnecting
  · exact ⟨s, hok, h⟩

/-- A functor other than `startInLoop` leaves those of `startInLoop` in the queue. -/
theorem Pursued.popped (h : s.Pursued) {functor : ConnectorFunctor}
    {functors : List ConnectorFunctor} (hfunctors : s.functors = functor :: functors)
    (hne : functor ≠ .startInLoop) : Pursued { s with functors } where
  pending hset hstate := by
    refine (h.pending hset hstate).imp_left fun hmem => ?_
    rw [hfunctors] at hmem
    exact (List.mem_cons.mp hmem).resolve_left hne.symm
  channel := h.channel

/-- A step that gives up no attempt leaves the next one before the connector. -/
theorem Pursued.step (h : s.Pursued) (hsingle : s.Single) (hpersists : s.Persists a) :
    KeepsTrying s a (s.step a) := by
  have hgood {u : Connector} (hu : u.Pursued) : KeepsTrying s a (.ok u) := by
    refine ⟨fun fault => by simp, fun t ht => ?_⟩
    obtain rfl := Except.ok.inj ht
    exact hu
  have hdisabled : KeepsTrying s a (.error .disabled) :=
    ⟨fun fault => by simp, fun t ht => by cases ht⟩
  obtain ⟨halone, hmeets⟩ := hpersists
  cases a with
  | start inLoop answer =>
    cases inLoop with
    | true => exact hgood (pursued_startInLoop h.channel (hmeets rfl))
    | false =>
      refine hgood ⟨fun _ _ => .inl ?_, h.channel⟩
      exact List.mem_append_right _ List.mem_cons_self
  | stop inLoop =>
    cases inLoop with
    | true => exact hgood ⟨fun hset => (by cases hset), h.channel⟩
    | false => exact hgood ⟨fun hset => (by cases hset), h.channel⟩
  | restart answer =>
    exact hgood (pursued_startInLoop (fun hconnecting => by cases hconnecting) hmeets)
  | timer i answer =>
    rw [Connector.step]
    split
    · next hi => exact hgood (pursued_startInLoop h.channel (hmeets hi))
    · exact hdisabled
  | functor answer =>
    rw [Connector.step]
    split
    · next functor functors hfunctors =>
      rw [Meets, hfunctors] at hmeets
      rw [Alone, Meets, hfunctors] at halone
      cases functor with
      | startInLoop => exact hgood (pursued_startInLoop h.channel hmeets)
      | stopInLoop starts =>
        have hpopped := h.popped hfunctors (by simp)
        exact hgood ⟨hpopped.pending, hpopped.channel⟩
      | resetChannel =>
        -- The channel of an attempt in progress is registered, and is not reset.
        refine hgood ⟨(h.popped hfunctors (by simp)).pending, fun hconnecting => ?_⟩
        exact absurd (h.channel hconnecting) halone
    · exact hdisabled
  | event socket e =>
    rw [Connector.step]
    split
    · next hsocket =>
      obtain ⟨-, ch, hch, rfl⟩ := hsingle.owned socket hsocket
      obtain ⟨t, hok, ht⟩ := h.handlerEvent hch (hmeets hsocket)
      rw [if_pos ⟨ch, hch, rfl⟩, hok]
      exact hgood ht
    · exact hdisabled

end

/-- In every run in which `connect` gives answers that its `switch` goes on with, no attempt is
begun beside another or fails while `connecting_` is clear, the connector does not give up: as
long as it is wanted and not connected its next attempt is before it. -/
theorem never_gives_up {callback : Bool} {actions : List ConnectorAction}
    (h : Guarded step Persists { newConnectionCallback := callback } actions) :
    Along step KeepsTrying { newConnectionCallback := callback } actions := by
  apply along_of_guarded (fun s => s.Single ∧ s.Pursued) ?_ ?_ ?_ h
  · exact fun s a hs hpersists => hs.2.step hs.1 hpersists
  · intro s a t hs hpersists hok
    exact ⟨(hs.1.step a).1 hpersists.1 t hok, (hs.2.step hs.1 hpersists).2 t hok⟩
  · exact ⟨single_init callback, fun hset => (by cases hset),
      fun hconnecting => (by cases hconnecting)⟩

/-- The connector is stopped while its timer is pending, and started anew behind it. -/
theorem never_gives_up_five_steps : Along step KeepsTrying {}
    [.start true (.failed 5 econnrefused), .stop true, .timer 0 (.failed 6 einprogress),
      .start true (.failed 7 einprogress), .event 2 ⟨pollOut, 0, false⟩] :=
  never_gives_up (by decide +kernel)

end Connector

end Reactor
