import Reactor.TcpClient.Invariant

/-!
# Reconnecting

With `retry_` a connection that closes stays in the poller, and the next `OnConnection`
takes `connPtr_` away from it. As long as user code keeps every connection that has been
replaced, each entry of `channelMap_` leads to a channel that exists. Otherwise the entry
outlives its channel, and a new channel with the same descriptor does not replace it.
-/

namespace Reactor

open Transition

namespace TcpClient

section

variable {s t : TcpClient} {c : Connector} {n : ℕ} {answer : ConnectAnswer}

/-! ## Steps -/

/-- What the connector's step hands on. -/
theorem moveConnector_ok (hok : s.moveConnector c = .ok t) :
    (∀ fd ∈ c.fds.drop s.connector.fds.length, ¬ s.FdOpen fd) ∧
      ∃ poll, run Poll.step
          { s.poll with
            channels := (addChannels s.poll.channels s.connector.fds.length
              (c.fds.drop s.connector.fds.length)) }
          ((c.pollerCalls.drop s.connector.pollerCalls.length).map (.map .connect)) = .ok poll ∧
        ((c.handed.drop s.connector.handed.length = [] ∧ t = { s with connector := c, poll }) ∨
          ∃ n rest, c.handed.drop s.connector.handed.length = n :: rest ∧
            { s with connector := c, poll }.onConnection n = .ok t) := by
  unfold moveConnector at hok
  dsimp only at hok
  split at hok
  · next hfresh =>
    obtain ⟨poll, hlift, hrest⟩ := bind_eq_ok.mp hok
    refine ⟨hfresh, poll, liftPoll_eq_ok.mp hlift, ?_⟩
    split at hrest
    · next hhanded => exact .inl ⟨hhanded, (Except.ok.inj hrest).symm⟩
    · next n rest hhanded => exact .inr ⟨n, rest, hhanded, hrest⟩
  · cases hok

/-- The client before and after the connector has taken up a call. -/
theorem moveConnector_same {c' : Connector} (hsame : Connector.SameAttempt s.connector c') :
    { s with connector := c' }.moveConnector c = s.moveConnector c := by
  unfold moveConnector FdOpen Alive
  simp only [hsame.fds_eq, hsame.closed_eq, hsame.handed_eq, hsame.pollerCalls_eq]

/-- A step of the connector that leaves the poller alone. -/
theorem moveConnector_quiet (hok : s.moveConnector c = .ok t) (hfds : c.fds = s.connector.fds)
    (hcalls : c.pollerCalls = s.connector.pollerCalls) (hhanded : c.handed = s.connector.handed) :
    t = { s with connector := c } := by
  obtain ⟨-, poll, hrun, hcase⟩ := moveConnector_ok hok
  simp only [hfds, hcalls, hhanded, List.drop_length, List.map_nil, run, addChannels,
    Except.ok.injEq] at hrun hcase
  rcases hcase with ⟨-, rfl⟩ | ⟨n, rest, hcons, -⟩
  · rw [← hrun]
  · cases hcons

/-- A step of the connector that creates a socket. -/
theorem moveConnector_created {fd : ℕ} {calls : List (PollerOp ℕ)}
    (hok : s.moveConnector c = .ok t) (hfds : c.fds = s.connector.fds ++ [fd])
    (hcalls : c.pollerCalls = s.connector.pollerCalls ++ calls)
    (hhanded : c.handed = s.connector.handed) :
    ¬ s.FdOpen fd ∧ ∃ poll,
      run Poll.step (s.created fd).poll (calls.map (.map .connect)) = .ok poll ∧
      t = { s.created fd with connector := c, poll } := by
  obtain ⟨hfresh, poll, hrun, hcase⟩ := moveConnector_ok hok
  rw [hfds, List.drop_left] at hfresh
  rw [hfds, hcalls, List.drop_left, List.drop_left] at hrun
  refine ⟨hfresh fd List.mem_cons_self, poll, hrun, ?_⟩
  rw [hhanded, List.drop_length] at hcase
  rcases hcase with ⟨-, rfl⟩ | ⟨n, rest, hcons, -⟩
  · rfl
  · cases hcons

/-- A `startInLoop` that keeps its channel keeps the client sound. -/
theorem Sound.startInLoop (h : s.Sound) (hguard : StartKeepsChannel s.connector answer)
    (hok : s.moveConnector (s.connector.startInLoop answer) = .ok t) : t.Sound := by
  unfold Connector.startInLoop at hok
  split at hok
  · next hstate =>
    rcases Connector.connect_cases s.connector answer with ⟨-, heq⟩ | ⟨fd, -, hcase⟩
    · rw [heq] at hok
      obtain rfl := moveConnector_quiet hok rfl rfl rfl
      exact h
    rcases hcase with ⟨hconnecting, hwaits, heq⟩ | ⟨hconnecting, -, heq⟩ | ⟨-, heq⟩
    · rw [heq] at hok
      have hset : (s.connector.createSocket fd).connecting_ = true := hconnecting
      obtain ⟨channel, -, hc⟩ := Connector.connecting_eq hset s.connector.fds.length
      obtain ⟨hfd, poll, hrun, rfl⟩ := moveConnector_created hok (by rw [hc]; rfl)
        (by rw [hc]; rfl) (by rw [hc]; rfl)
      obtain ⟨poll', hpoll, hrest⟩ := run_cons_eq_ok.mp hrun
      obtain rfl := Except.ok.inj hrest
      have hindex : ((s.created fd).poll.channels (.connect s.connector.fds.length)).index < 0 := by
        rw [channels_created_connect]
        change (-1 : ℤ) < 0
        omega
      exact (h.created hfd).connecting hconnecting (hguard hstate hconnecting hwaits) hindex hpoll
    · rw [heq] at hok
      have hset : (s.connector.createSocket fd).connecting_ = true := hconnecting
      have hc := Connector.retry_eq hset s.connector.fds.length
      obtain ⟨hfd, poll, hrun, rfl⟩ := moveConnector_created hok (by rw [hc]; rfl)
        (by rw [hc]; exact (List.append_nil _).symm) (by rw [hc]; rfl)
      obtain rfl := Except.ok.inj hrun
      exact (h.created hfd).retry
    · rw [heq] at hok
      have hcalls : (s.connector.createSocket fd).pollerCalls = s.connector.pollerCalls ++ [] :=
        (List.append_nil _).symm
      obtain ⟨hfd, poll, hrun, rfl⟩ := moveConnector_created hok rfl hcalls rfl
      obtain rfl := Except.ok.inj hrun
      exact (h.created hfd).toSound
  · obtain rfl := moveConnector_quiet hok rfl rfl rfl
    exact h

/-- The connector takes up a call, and that is all. -/
theorem Sound.quiet (h : s.Sound) (hok : s.moveConnector c = .ok t)
    (hsame : Connector.SameAttempt s.connector c) : t.Sound := by
  obtain rfl := moveConnector_quiet hok hsame.fds_eq hsame.pollerCalls_eq hsame.handed_eq
  exact h.of_same hsame

/-- `startInLoop`, after the connector has taken up a call. -/
theorem Sound.startInLoop_of_same {c' : Connector} (h : s.Sound)
    (hsame : Connector.SameAttempt s.connector c') (hguard : StartKeepsChannel c' answer)
    (hok : s.moveConnector (c'.startInLoop answer) = .ok t) : t.Sound := by
  rw [← moveConnector_same hsame] at hok
  exact (h.of_same hsame).startInLoop hguard hok

/-- A step of the connector that removes its channel. -/
theorem Sound.moveConnector_removed (h : s.Sound) {c' : Connector} {ch : ConnectChannel}
    (hremoved : Connector.Removed s.connector c ch) (hch : ch.socket ∈ s.connector.registered)
    (hfds : c'.fds = c.fds) (hcalls : c'.pollerCalls = c.pollerCalls)
    (hok : s.moveConnector c' = .ok t) :
    ∃ poll, InHand { s with connector := c, poll } ch.socket ∧
      ((c'.handed.drop s.connector.handed.length = [] ∧ t = { s with connector := c', poll }) ∨
        ∃ n rest, c'.handed.drop s.connector.handed.length = n :: rest ∧
          { s with connector := c', poll }.onConnection n = .ok t) := by
  obtain ⟨mask, hcalls'⟩ := hremoved.pollerCalls_eq
  obtain ⟨-, poll, hrun, hcase⟩ := moveConnector_ok hok
  rw [hfds, hremoved.fds_eq, hcalls, hcalls', List.drop_left, List.drop_length] at hrun
  obtain ⟨poll', hupdate, hrun⟩ := run_cons_eq_ok.mp hrun
  obtain ⟨poll'', hremove, hrest⟩ := run_cons_eq_ok.mp hrun
  obtain rfl := Except.ok.inj hrest
  exact ⟨poll'', h.removed hremoved hch hupdate hremove, hcase⟩

/-- An event of the connector keeps the client sound if it does not replace a connection. -/
theorem Sound.handlerEvent (h : s.Sound) {ch : ConnectChannel}
    (howned : s.connector.connectChannel = some ch) (hch : ch.socket ∈ s.connector.registered)
    {e : ConnectEvent} (hguard : s.connector.ReportsAt e → s.KeepsConnection)
    (hevent : s.connector.handlerEvent e = .ok c) (hok : s.moveConnector c = .ok t) : t.Sound := by
  rcases Connector.handlerEvent_cases howned e with ⟨-, c', hremoved, heq⟩ |
    ⟨hreports, c', hremoved, heq⟩ | ⟨-, -, heq⟩
  · obtain rfl := Except.ok.inj (heq.symm.trans hevent)
    have hfields : (c'.retry ch.socket).fds = c'.fds ∧ (c'.retry ch.socket).handed = c'.handed ∧
        (c'.retry ch.socket).pollerCalls = c'.pollerCalls := by
      unfold Connector.retry
      split
      · exact ⟨rfl, rfl, rfl⟩
      · exact ⟨rfl, rfl, rfl⟩
    obtain ⟨hfds, hhanded, hcalls⟩ := hfields
    obtain ⟨poll, hhand, hcase⟩ := h.moveConnector_removed hremoved hch hfds hcalls hok
    rw [hhanded, hremoved.handed_eq, List.drop_length] at hcase
    rcases hcase with ⟨-, rfl⟩ | ⟨n, rest, hcons, -⟩
    · exact hhand.retry
    · cases hcons
  · obtain rfl := Except.ok.inj (heq.symm.trans hevent)
    have hc := Connector.reportConnection_eq
      (hremoved.newConnectionCallback_eq.trans h.callback) ch.socket
    obtain ⟨poll, hhand, hcase⟩ :=
      h.moveConnector_removed hremoved hch (by rw [hc]) (by rw [hc]) hok
    have hdrop : (c'.reportConnection ch.socket).handed.drop s.connector.handed.length =
        [ch.socket] := by
      rw [hc, ← hremoved.handed_eq]
      exact List.drop_left
    rw [hdrop] at hcase
    rcases hcase with ⟨hnil, -⟩ | ⟨n, rest, hcons, hconnection⟩
    · cases hnil
    · obtain ⟨rfl, -⟩ := List.cons.inj hcons
      exact hhand.onConnection (hguard hreports) hconnection
  · obtain rfl := Except.ok.inj (heq.symm.trans hevent)
    obtain rfl := moveConnector_quiet hok rfl rfl rfl
    exact h

/-- A careful step of the connector keeps the client sound. -/
theorem Sound.connector_step (h : s.Sound) {action : ConnectorAction}
    (hcareful : s.Careful (.connector action)) (hdelivered : s.Delivered action)
    (hstep : s.connector.step action = .ok c) (hok : s.moveConnector c = .ok t) : t.Sound := by
  cases action with
  | start inLoop answer =>
    obtain rfl := Except.ok.inj hstep
    cases inLoop with
    | true =>
      exact h.startInLoop_of_same (Connector.sameAttempt_setConnecting _) (hcareful rfl) hok
    | false => exact h.quiet hok (Connector.sameAttempt_start _ answer)
  | stop inLoop =>
    obtain rfl := Except.ok.inj hstep
    exact h.quiet hok (Connector.sameAttempt_stop _ inLoop)
  | restart answer => exact absurd hdelivered id
  | timer i answer =>
    rw [Connector.step] at hstep
    split at hstep
    · next hi =>
      obtain rfl := Except.ok.inj hstep
      exact h.startInLoop_of_same (Connector.sameAttempt_timers _ i) (hcareful hi) hok
    · cases hstep
  | functor answer =>
    rw [Connector.step] at hstep
    split at hstep
    · next functor functors hfunctors =>
      obtain rfl := Except.ok.inj hstep
      have hpopped := Connector.sameAttempt_functors s.connector functors
      simp only [Careful, Connector.Meets, hfunctors] at hcareful
      cases functor with
      | startInLoop => exact h.startInLoop_of_same hpopped hcareful hok
      | stopInLoop starts =>
        exact h.quiet hok (Connector.sameAttempt_stopInLoop _ functors starts)
      | resetChannel =>
        obtain rfl := moveConnector_quiet hok rfl rfl rfl
        exact (h.of_same hpopped).resetChannel hcareful
    · cases hstep
  | event socket e =>
    rw [Connector.step] at hstep
    split at hstep
    · next hsocket =>
      split at hstep
      · next howned =>
        obtain ⟨ch, hch, rfl⟩ := howned
        exact h.handlerEvent hch hsocket (hcareful hsocket) hstep hok
      · cases hstep
    · cases hstep

/-- A close with a restart keeps the client sound if the restart keeps its channel. -/
theorem Sound.handleClose (h : s.Sound) (hreported : s.Reported (.connection n))
    (hguard : StartKeepsChannel s.connector.setRestarted answer)
    (hok : s.handleClose n answer = .ok t) : t.Sound := by
  obtain ⟨d, hd, -, heq⟩ := (h.serves.holds _ _).mp hreported
  obtain rfl := Option.some.inj heq
  have hhanded := (h.established n).mp (connection_mem_registered.mp hd)
  obtain ⟨u, hcall, hremove⟩ := bind_eq_ok.mp hok
  obtain ⟨hu, hconnector⟩ := h.callPoller hhanded hcall
  rw [removeConnection, if_neg (by simp [hu.retry_eq])] at hremove
  rw [← hconnector] at hguard
  exact hu.startInLoop_of_same (Connector.sameAttempt_setRestarted _) hguard hremove

/-- User code copies or drops a pointer. -/
theorem Sound.setUserRefs (h : s.Sound) {userRefs : Finset ℕ}
    (halive : ∀ n ∈ s.connector.handed, Alive { s with userRefs } n) :
    Sound { s with userRefs } :=
  { h with
    alive := fun n hn => by
      obtain ⟨hlt, hclosed, -⟩ := h.alive n hn
      exact ⟨hlt, hclosed, halive n hn⟩ }

/-- Every careful step keeps the client sound. -/
theorem Sound.step {a : ClientAction} (h : s.Sound) (hcareful : s.Careful a)
    (hok : s.step a = .ok t) : t.Sound := by
  cases a with
  | connector action =>
    rw [TcpClient.step] at hok
    split at hok
    · next hdelivered =>
      obtain ⟨c, hstep, hmove⟩ := bind_eq_ok.mp hok
      exact h.connector_step hcareful hdelivered hstep hmove
    · cases hok
  | handleClose n answer =>
    rw [TcpClient.step] at hok
    split at hok
    · next hreported =>
      split at hok
      · exact h.handleClose hreported hcareful hok
      · cases hok
    · cases hok
  | setEvents n mask =>
    rw [TcpClient.step] at hok
    split at hok
    · next hn => exact (h.callPoller hn.1 hok).1
    · cases hok
  | removal =>
    rw [TcpClient.step, h.removals_eq] at hok
    cases hok
  | retain n =>
    rw [TcpClient.step] at hok
    split at hok
    · obtain rfl := Except.ok.inj hok
      apply h.setUserRefs
      intro m hm
      rcases (h.alive m hm).2.2 with hptr | hrefs | hremovals
      · exact .inl hptr
      · exact .inr (.inl (Finset.mem_insert_of_mem hrefs))
      · exact .inr (.inr hremovals)
    · cases hok
  | release n =>
    rw [TcpClient.step] at hok
    split at hok
    · obtain rfl := Except.ok.inj hok
      apply h.setUserRefs
      intro m hm
      by_cases hmn : m = n
      · subst hmn
        rcases hcareful with hptr | hnot
        · exact .inl hptr
        · exact absurd (connection_mem_registered.mpr ((h.established m).mpr hm)) hnot
      · rcases (h.alive m hm).2.2 with hptr | hrefs | hremovals
        · exact .inl hptr
        · exact .inr (.inl (Finset.mem_erase_of_ne_of_mem hmn hrefs))
        · exact .inr (.inr hremovals)
    · cases hok

/-- A client that has been started is sound. -/
theorem sound_started {wakeupFd timerFd : ℕ} (hne : wakeupFd ≠ timerFd) :
    (started true wakeupFd timerFd).Sound := by
  have hregistered : (started true wakeupFd timerFd).registered =
      insert .wakeup (insert .timer ∅) := by
    ext d
    simp [registered, started, Connector.registered]
  have hempty : ChannelMap.Holds ∅ (loopPoll wakeupFd timerFd).channels ∅ := by
    simp [ChannelMap.Holds]
  have htimer := hempty.insert (c := .timer) (by simp)
  have hwakeup := htimer.insert (c := .wakeup) (by simp [loopPoll, hne.symm])
  have hserves : (loopPoll wakeupFd timerFd).Serves (insert .wakeup (insert .timer ∅)) := by
    refine ⟨hwakeup, ?_⟩
    simp [loopPoll]
  refine ⟨rfl, rfl, rfl, ?_, ?_, ?_, ?_, ?_, ?_, ?_, ⟨rfl, rfl⟩⟩
  · rw [hregistered]
    exact hserves
  · simp [started, Connector.registered]
  · simp [started]
  · simp [started]
  · simp [started]
  · simp [started]
  · simp [started]

end

/-- In every run with `retry_` in which user code keeps each connection that has been
replaced, and the connector neither replaces nor resets a registered channel, the map holds
no stale channel. -/
theorem noStale_of_careful {wakeupFd timerFd : ℕ} (hne : wakeupFd ≠ timerFd)
    {actions : List ClientAction}
    (h : Guarded step Careful (started true wakeupFd timerFd) actions) :
    Always step NoStale (started true wakeupFd timerFd) actions := by
  apply along_of_guarded Sound ?_ ?_ (sound_started hne) h
  · intro s a hs hcareful t hok
    exact (hs.step hcareful hok).noStale
  · intro s a t hs hcareful hok
    exact hs.step hcareful hok

/-- User code keeps the first connection, which is closed and replaced. -/
theorem noStale_of_careful_six_steps : Always step NoStale (started true 3 4)
    [.connector (.start true (.failed 5 einprogress)), .connector (.event 0 ⟨pollOut, 0, false⟩),
      .connector (.functor .noSocket), .retain 0, .handleClose 0 (.failed 6 einprogress),
      .connector (.event 1 ⟨pollOut, 0, false⟩)] :=
  noStale_of_careful (by decide) (by decide +kernel)

/-- A connection is closed and replaced. -/
def replacedConnection : List ClientAction :=
  [.connector (.start true (.failed 5 einprogress)), .connector (.event 0 ⟨pollOut, 0, false⟩),
    .connector (.functor .noSocket), .handleClose 0 (.failed 6 einprogress),
    .connector (.event 1 ⟨pollOut, 0, false⟩)]

/-- The map still leads to the connection that has been destroyed. -/
theorem not_noStale : ¬ Always step NoStale (started true 3 4) replacedConnection := by
  intro h
  have hcode : (run step (started true 3 4) replacedConnection).map (fun s =>
      (s.poll.channelMap.lookup 5, decide (s.Alive 0))) =
      .ok (some (some (.connection 0)), false) := by
    decide +kernel
  obtain ⟨s, hrun, hs⟩ := map_eq_ok.mp hcode
  simp only [Prod.mk.injEq, decide_eq_false_iff_not] at hs
  obtain ⟨hlookup, hdead⟩ := hs
  have hend : s.NoStale := Always.at_end (sound_started (by decide)).noStale h hrun
  obtain ⟨d, hd, hexists, -⟩ := hend.1 5 _ hlookup
  obtain rfl := Option.some.inj hd
  exact hdead hexists

end TcpClient

end Reactor
