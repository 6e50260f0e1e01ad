import Reactor.Connector.Calls

/-!
# Stopping the connector

`stop` clears `connecting_`, which only `connecting` and `retry` look at. A timer or a
functor of `startInLoop` that is still pending therefore creates one more socket, and a
connect channel that is still registered reports a connection.
-/

namespace Reactor

open Transition

/-- The call starts the connector again. -/
def ConnectorAction.isStart : ConnectorAction → Bool
  | .start _ _ | .restart _ => true
  | .stop _ | .timer _ _ | .functor _ | .event _ _ => false

namespace Connector

/-- The step creates no socket and invokes no `newConnectionCallback_`. -/
def Quiet (s : Connector) (_ : ConnectorAction) (r : Except ConnectorFault Connector) : Prop :=
  ∀ t, r = .ok t → t.fds = s.fds ∧ t.handed = s.handed

/-- In the state `DisConnected` no `startInLoop` is pending, and in the state `Connecting`
no channel is registered that could report a connection. -/
def Settled (s : Connector) : Prop :=
  (s.state = .disConnected → s.timers = [] ∧ .startInLoop ∉ s.functors) ∧
    (s.state = .connecting → s.newConnectionCallback = true → ¬ s.ChannelRegistered)

instance (s : Connector) : Decidable s.Settled := inferInstanceAs (Decidable (_ ∧ _))

/-- What holds of every reachable state: a `stop` that no start has followed has cleared
`connecting_`. -/
structure StopsKnown (s : Connector) : Prop where
  stopped : s.stopped = true → s.connecting_ = false
  queued : ∀ n, .stopInLoop n ∈ s.functors → n ≤ s.starts ∧ (n = s.starts → s.connecting_ = false)

section

variable {s t : Connector} {answer : ConnectAnswer} {a : ConnectorAction}

/-! ## The reachable states -/

/-- Steps that neither stop nor start the connector. -/
structure SameStops (s t : Connector) : Prop where
  connecting_eq : t.connecting_ = s.connecting_
  starts_eq : t.starts = s.starts
  stopped_eq : t.stopped = s.stopped
  queued_sub : ∀ n, .stopInLoop n ∈ t.functors → .stopInLoop n ∈ s.functors

/-- What is known of stops is a matter of four fields. -/
theorem SameStops.of_eq (hconnecting : t.connecting_ = s.connecting_)
    (hstarts : t.starts = s.starts)
    (hstopped : t.stopped = s.stopped) (hfunctors : t.functors = s.functors) : SameStops s t := by
  refine ⟨hconnecting, hstarts, hstopped, fun n hn => ?_⟩
  rwa [← hfunctors]

/-- Stops stay the same over two steps that keep them. -/
theorem SameStops.trans {u : Connector} (h : SameStops s t) (h' : SameStops t u) :
    SameStops s u where
  connecting_eq := h'.connecting_eq.trans h.connecting_eq
  starts_eq := h'.starts_eq.trans h.starts_eq
  stopped_eq := h'.stopped_eq.trans h.stopped_eq
  queued_sub n hn := h.queued_sub n (h'.queued_sub n hn)

/-- What is known of stops is kept by what keeps the stops. -/
theorem StopsKnown.of_same (h : s.StopsKnown) (hsame : SameStops s t) : t.StopsKnown where
  stopped := by
    rw [hsame.stopped_eq, hsame.connecting_eq]
    exact h.stopped
  queued n hn := by
    rw [hsame.starts_eq, hsame.connecting_eq]
    exact h.queued n (hsame.queued_sub n hn)

/-- Waiting for a connection neither starts nor stops. -/
theorem sameStops_connecting (s : Connector) (sockfd : ℕ) : SameStops s (s.connecting sockfd) := by
  unfold connecting
  split
  · exact .of_eq rfl rfl rfl rfl
  · exact .of_eq rfl rfl rfl rfl

/-- A retry neither starts nor stops. -/
theorem sameStops_retry (s : Connector) (sockfd : ℕ) : SameStops s (s.retry sockfd) := by
  unfold retry
  split
  · exact .of_eq rfl rfl rfl rfl
  · exact .of_eq rfl rfl rfl rfl

/-- Reporting a connection neither starts nor stops. -/
theorem sameStops_reportConnection (s : Connector) (sockfd : ℕ) :
    SameStops s (s.reportConnection sockfd) := by
  simp only [reportConnection]
  split
  · exact .of_eq rfl rfl rfl rfl
  · exact .of_eq rfl rfl rfl rfl

/-- `startInLoop` neither starts nor stops. -/
theorem sameStops_startInLoop (s : Connector) (answer : ConnectAnswer) :
    SameStops s (s.startInLoop answer) := by
  unfold startInLoop
  split
  · rcases connect_cases s answer with ⟨-, heq⟩ | ⟨fd, -, hcase⟩
    · rw [heq]
      exact .of_eq rfl rfl rfl rfl
    · have hcreate : SameStops s (s.createSocket fd) := .of_eq rfl rfl rfl rfl
      rcases hcase with ⟨-, -, heq⟩ | ⟨-, -, heq⟩ | ⟨-, heq⟩
      · rw [heq]
        exact hcreate.trans (sameStops_connecting _ _)
      · rw [heq]
        exact hcreate.trans (sameStops_retry _ _)
      · rw [heq]
        exact hcreate
  · exact .of_eq rfl rfl rfl rfl

/-- Removing a channel neither starts nor stops. -/
theorem Removed.sameStops {ch : ConnectChannel} (h : Removed s t ch) : SameStops s t := by
  refine ⟨h.connecting_eq, h.starts_eq, h.stopped_eq, fun n hn => ?_⟩
  simpa [h.functors_eq] using hn

/-- No event starts or stops the connector. -/
theorem sameStops_handlerEvent {ch : ConnectChannel} (howned : s.connectChannel = some ch)
    {e : ConnectEvent} (hok : s.handlerEvent e = .ok t) : SameStops s t := by
  rcases handlerEvent_cases howned e with
    ⟨-, u, hremoved, heq⟩ | ⟨-, u, hremoved, heq⟩ | ⟨-, -, heq⟩
  · obtain rfl := Except.ok.inj (heq.symm.trans hok)
    exact hremoved.sameStops.trans (sameStops_retry _ _)
  · obtain rfl := Except.ok.inj (heq.symm.trans hok)
    exact hremoved.sameStops.trans (sameStops_reportConnection _ _)
  · obtain rfl := Except.ok.inj (heq.symm.trans hok)
    exact .of_eq rfl rfl rfl rfl

/-- A start outdates the stops before it. -/
theorem StopsKnown.setConnecting (h : s.StopsKnown) : s.setConnecting.StopsKnown where
  stopped := by simp [Connector.setConnecting]
  queued n hn := by
    have hle := (h.queued n hn).1
    simp only [Connector.setConnecting]
    omega

/-- A `stopInLoop` of the last start finds `connecting_` clear. -/
theorem StopsKnown.stopInLoop {n : ℕ} (h : s.StopsKnown)
    (hn : n = s.starts → s.connecting_ = false) : (s.stopInLoop n).StopsKnown where
  stopped := by
    simp only [Connector.stopInLoop, Bool.or_eq_true, beq_iff_eq]
    rintro (hstopped | hstarts)
    · exact h.stopped hstopped
    · exact hn hstarts
  queued := h.queued

/-- `stop` clears `connecting_`, and queues a functor that knows of the starts so far. -/
theorem StopsKnown.stop (h : s.StopsKnown) (inLoop : Bool) : (s.stop inLoop).StopsKnown := by
  have hcleared : StopsKnown { s with connecting_ := false } :=
    ⟨fun _ => rfl, fun n hn => ⟨(h.queued n hn).1, fun _ => rfl⟩⟩
  cases inLoop with
  | true => exact hcleared.stopInLoop fun _ => rfl
  | false =>
    refine ⟨fun _ => rfl, fun n hn => ?_⟩
    rcases List.mem_append.mp hn with hn | hn
    · exact hcleared.queued n hn
    · obtain rfl := ConnectorFunctor.stopInLoop.inj (List.mem_singleton.mp hn)
      exact ⟨Nat.le_refl _, fun _ => rfl⟩

/-- Functors keep what is known of stops. -/
theorem StopsKnown.call {functor : ConnectorFunctor} (h : s.StopsKnown)
    (hn : ∀ n, functor = .stopInLoop n → n = s.starts → s.connecting_ = false) :
    (s.call answer functor).StopsKnown := by
  cases functor with
  | startInLoop => exact h.of_same (sameStops_startInLoop s answer)
  | stopInLoop n => exact h.stopInLoop (hn n rfl)
  | resetChannel => exact h.of_same (.of_eq rfl rfl rfl rfl)

/-- Every step keeps what is known of stops. -/
theorem StopsKnown.step (h : s.StopsKnown) (hok : s.step a = .ok t) : t.StopsKnown := by
  cases a with
  | start inLoop answer =>
    obtain rfl := Except.ok.inj hok
    cases inLoop with
    | true => exact h.setConnecting.of_same (sameStops_startInLoop _ answer)
    | false =>
      apply h.setConnecting.of_same
      refine ⟨rfl, rfl, rfl, fun n hn => ?_⟩
      simpa [Connector.start, queueInLoop] using hn
  | stop inLoop =>
    obtain rfl := Except.ok.inj hok
    exact h.stop inLoop
  | restart answer =>
    obtain rfl := Except.ok.inj hok
    apply h.setConnecting.of_same
    apply SameStops.trans ?_ (sameStops_startInLoop s.setRestarted answer)
    exact .of_eq rfl rfl rfl rfl
  | timer i answer =>
    rw [Connector.step] at hok
    split at hok
    · obtain rfl := Except.ok.inj hok
      apply h.of_same
      apply SameStops.trans ?_ (sameStops_startInLoop _ answer)
      exact .of_eq rfl rfl rfl rfl
    · cases hok
  | functor answer =>
    rw [Connector.step] at hok
    split at hok
    · next functor functors hfunctors =>
      obtain rfl := Except.ok.inj hok
      have hpopped : StopsKnown { s with functors } :=
        h.of_same ⟨rfl, rfl, rfl, fun n hn => hfunctors ▸ List.mem_cons_of_mem _ hn⟩
      apply hpopped.call
      rintro n rfl
      exact (h.queued n (hfunctors ▸ List.mem_cons_self)).2
    · cases hok
  | event socket e =>
    rw [Connector.step] at hok
    split at hok
    · split at hok
      · next howned =>
        obtain ⟨ch, hch, -⟩ := howned
        exact h.of_same (sameStops_handlerEvent hch hok)
      · cases hok
    · cases hok

/-- A new connector has not been stopped. -/
theorem stopsKnown_init (callback : Bool) :
    StopsKnown { newConnectionCallback := callback } where
  stopped := by simp
  queued := by simp

/-- In every state reached the stops are known. -/
theorem stopsKnown_of_run {callback : Bool} {actions : List ConnectorAction}
    (hrun : run step { newConnectionCallback := callback } actions = .ok s) : s.StopsKnown := by
  apply Always.at_end (stopsKnown_init callback) ?_ hrun
  apply along_of_guarded StopsKnown ?_ ?_ (stopsKnown_init callback) guarded_true
  · exact fun s a hs _ t hok => hs.step hok
  · exact fun s a t hs _ hok => hs.step hok

/-! ## A settled stop -/

/-- `startInLoop` finds another state than `DisConnected`, if it runs at all. -/
theorem startInLoop_of_ne (h : s.state ≠ .disConnected) (answer : ConnectAnswer) :
    s.startInLoop answer = s := by
  rw [startInLoop, if_neg h]

/-- A stopped connector without anything that could create a socket or report one. -/
structure Stopped (s : Connector) : Prop where
  cleared : s.connecting_ = false
  settled : s.Settled

/-- Steps that leave a stopped connector as it is, but for what they take off its queues. -/
theorem Stopped.of_eq (h : s.Stopped) (hcleared : t.connecting_ = false)
    (hstate : t.state = s.state) (hcallback : t.newConnectionCallback = s.newConnectionCallback)
    (htimers : s.timers = [] → t.timers = [])
    (hfunctors : .startInLoop ∉ s.functors → .startInLoop ∉ t.functors)
    (hchannel : ¬ s.ChannelRegistered → ¬ t.ChannelRegistered) : t.Stopped := by
  refine ⟨hcleared, fun hdis => ?_, fun hcon hset => ?_⟩
  · obtain ⟨htimers', hfunctors'⟩ := h.settled.1 (hstate.symm.trans hdis)
    exact ⟨htimers htimers', hfunctors hfunctors'⟩
  · exact hchannel (h.settled.2 (hstate.symm.trans hcon) (hcallback.symm.trans hset))

/-- The event handlers of a stopped connector. -/
theorem Stopped.handlerEvent (h : s.Stopped) {ch : ConnectChannel}
    (howned : s.connectChannel = some ch) (hch : ch.socket ∈ s.registered) {e : ConnectEvent}
    (hok : s.handlerEvent e = .ok t) : t.Stopped ∧ t.fds = s.fds ∧ t.handed = s.handed := by
  rcases handlerEvent_cases howned e with ⟨-, u, hremoved, heq⟩ |
    ⟨hreports, u, hremoved, heq⟩ | ⟨-, -, heq⟩
  · rw [retry_of_not (hremoved.connecting_eq.trans h.cleared)] at heq
    obtain rfl := Except.ok.inj (heq.symm.trans hok)
    refine ⟨?_, hremoved.fds_eq, hremoved.handed_eq⟩
    apply h.of_eq (hremoved.connecting_eq.trans h.cleared) hremoved.state_eq
      hremoved.newConnectionCallback_eq
    · rw [hremoved.timers_eq]
      exact id
    · simp [hremoved.functors_eq]
    · rintro - ⟨ch', hch', hmem⟩
      obtain rfl := Option.some.inj (hremoved.connectChannel_eq.symm.trans hch')
      rw [hremoved.registered_eq] at hmem
      exact Finset.notMem_erase _ _ hmem
  · have hunset : s.newConnectionCallback = false := by
      by_contra hset
      exact h.settled.2 hreports.2.1 (by simpa using hset) ⟨ch, howned, hch⟩
    have hreport : u.reportConnection ch.socket = { u with state := .connected } := by
      simp [reportConnection, hremoved.newConnectionCallback_eq, hunset]
    rw [hreport] at heq
    obtain rfl := Except.ok.inj (heq.symm.trans hok)
    have hsettled : Settled { u with state := .connected } := by
      constructor
      · intro hdis
        cases hdis
      · intro hcon
        cases hcon
    exact ⟨⟨hremoved.connecting_eq.trans h.cleared, hsettled⟩, hremoved.fds_eq, hremoved.handed_eq⟩
  · obtain rfl := Except.ok.inj (heq.symm.trans hok)
    exact ⟨h, rfl, rfl⟩

/-- A stopped connector stays stopped until it is started, and opens and hands over no socket. -/
theorem Stopped.step (h : s.Stopped) (ha : a.isStart = false) (hok : s.step a = .ok t) :
    t.Stopped ∧ t.fds = s.fds ∧ t.handed = s.handed := by
  cases a with
  | start inLoop answer => cases ha
  | restart answer => cases ha
  | stop inLoop =>
    obtain rfl := Except.ok.inj hok
    cases inLoop with
    | true => exact ⟨h.of_eq rfl rfl rfl id id id, rfl, rfl⟩
    | false =>
      refine ⟨h.of_eq rfl rfl rfl id ?_ id, rfl, rfl⟩
      simp [Connector.stop, queueInLoop]
  | timer i answer =>
    rw [Connector.step] at hok
    split at hok
    · next hi =>
      have hne : s.state ≠ .disConnected := by
        intro hdis
        rw [(h.settled.1 hdis).1] at hi
        exact absurd hi (Nat.not_lt_zero i)
      have hpopped :
          ({ s with timers := s.timers.eraseIdx i } : Connector).state ≠ .disConnected := hne
      rw [startInLoop_of_ne hpopped] at hok
      obtain rfl := Except.ok.inj hok
      refine ⟨h.of_eq h.cleared rfl rfl ?_ id id, rfl, rfl⟩
      rintro htimers
      simp [htimers]
    · cases hok
  | functor answer =>
    rw [Connector.step] at hok
    split at hok
    · next functor functors hfunctors =>
      have hpopped : Stopped { s with functors } := by
        refine h.of_eq h.cleared rfl rfl id (fun hnot hmem => hnot ?_) id
        rw [hfunctors]
        exact List.mem_cons_of_mem _ hmem
      cases functor with
      | startInLoop =>
        have hne : ({ s with functors } : Connector).state ≠ .disConnected := by
          intro hdis
          exact (h.settled.1 hdis).2 (hfunctors ▸ List.mem_cons_self)
        rw [call, startInLoop_of_ne hne] at hok
        obtain rfl := Except.ok.inj hok
        exact ⟨hpopped, rfl, rfl⟩
      | stopInLoop n =>
        obtain rfl := Except.ok.inj hok
        exact ⟨hpopped.of_eq h.cleared rfl rfl id id id, rfl, rfl⟩
      | resetChannel =>
        obtain rfl := Except.ok.inj hok
        refine ⟨hpopped.of_eq h.cleared rfl rfl id id ?_, rfl, rfl⟩
        rintro - ⟨ch, hch, -⟩
        cases hch
    · cases hok
  | event socket e =>
    rw [Connector.step] at hok
    split at hok
    · next hsocket =>
      split at hok
      · next howned =>
        obtain ⟨ch, hch, rfl⟩ := howned
        exact h.handlerEvent hch hsocket hok
      · cases hok
    · cases hok

/-- A stopped connector is quiet until it is started. -/
theorem Stopped.quiet (h : s.Stopped) {later : List ConnectorAction}
    (hlater : ∀ a ∈ later, a.isStart = false) : Along Connector.step Quiet s later := by
  induction later generalizing s with
  | nil => trivial
  | cons a later ih =>
    have ha := hlater a List.mem_cons_self
    refine ⟨fun t hok => (h.step ha hok).2, fun t hok => ?_⟩
    exact ih (h.step ha hok).1 fun b hb => hlater b (List.mem_cons_of_mem a hb)

/-! ## Any other stop -/

/-- A pending `startInLoop` creates a socket. -/
theorem startInLoop_fds (h : s.state = .disConnected) (fd : ℕ) :
    (s.startInLoop (.connected fd)).fds = s.fds ++ [fd] := by
  rw [startInLoop, if_pos h]
  rfl

/-- The queued functors are run until `startInLoop` is. -/
theorem not_quiet_of_functor (hstate : s.state = .disConnected)
    (hmem : .startInLoop ∈ s.functors) :
    ∃ k, ¬ Along Connector.step Quiet s (List.replicate k (.functor (.connected 0))) := by
  generalize hfunctors : s.functors = functors at hmem
  induction functors generalizing s with
  | nil => cases hmem
  | cons functor functors ih =>
    have hok : s.step (.functor (.connected 0)) =
        .ok ({ s with functors }.call (.connected 0) functor) := by
      rw [Connector.step, hfunctors]
    have hnext (hstate' : ({ s with functors }.call (.connected 0) functor).state = .disConnected)
        (hrest : ({ s with functors }.call (.connected 0) functor).functors = functors)
        (hmem' : .startInLoop ∈ functors) :
        ∃ k, ¬ Along Connector.step Quiet s (List.replicate k (.functor (.connected 0))) := by
      obtain ⟨k, hk⟩ := ih hstate' hrest hmem'
      exact ⟨k + 1, fun h => hk (h.2 _ hok)⟩
    cases functor with
    | startInLoop =>
      refine ⟨1, fun h => ?_⟩
      have hpopped : ({ s with functors } : Connector).state = .disConnected := hstate
      have hfds := (h.1 _ hok).1
      rw [call, startInLoop_fds hpopped] at hfds
      simp at hfds
    | stopInLoop n => exact hnext hstate rfl (by simpa using hmem)
    | resetChannel => exact hnext hstate rfl (by simpa using hmem)

/-- A channel that is still registered reports a connection. -/
theorem not_quiet_of_channel (hstate : s.state = .connecting)
    (hcallback : s.newConnectionCallback = true) (hreg : s.ChannelRegistered) :
    ∃ e socket, ¬ Along Connector.step Quiet s [.event socket e] := by
  obtain ⟨ch, hch, hmem⟩ := hreg
  refine ⟨⟨pollOut, 0, false⟩, ch.socket, fun h => ?_⟩
  have hreports : s.ReportsAt ⟨pollOut, 0, false⟩ := ⟨by decide, hstate, rfl, rfl⟩
  rcases handlerEvent_cases hch ⟨pollOut, 0, false⟩ with ⟨hretries, -⟩ | ⟨-, t, hremoved, hok⟩ |
    ⟨-, hnot, -⟩
  · exact hreports.not_retriesAt hretries
  · have hstep : s.step (.event ch.socket ⟨pollOut, 0, false⟩) =
        .ok (t.reportConnection ch.socket) := by
      rw [Connector.step, if_pos hmem, if_pos ⟨ch, hch, rfl⟩, hok]
    have hhanded := (h.1 _ hstep).2
    have hset : t.newConnectionCallback = true :=
      hremoved.newConnectionCallback_eq.trans hcallback
    simp [reportConnection, hset, hremoved.handed_eq] at hhanded
  · exact hnot hreports

/-- A connector that stays quiet whatever comes has settled. -/
theorem settled_of_quiet (h : ∀ later : List ConnectorAction, (∀ a ∈ later, a.isStart = false) →
    Along Connector.step Quiet s later) : s.Settled := by
  refine ⟨fun hdis => ⟨?_, fun hmem => ?_⟩, fun hcon hcallback hreg => ?_⟩
  · by_contra htimers
    have hi : 0 < s.timers.length := List.length_pos_iff.mpr htimers
    have hok : s.step (.timer 0 (.connected 0)) =
        .ok ({ s with timers := s.timers.eraseIdx 0 }.startInLoop (.connected 0)) := by
      rw [Connector.step, if_pos hi]
    have hpopped : ({ s with timers := s.timers.eraseIdx 0 } : Connector).state = .disConnected :=
      hdis
    have hfds := ((h [.timer 0 (.connected 0)] (by simp [ConnectorAction.isStart])).1 _ hok).1
    rw [startInLoop_fds hpopped] at hfds
    simp at hfds
  · obtain ⟨k, hk⟩ := not_quiet_of_functor hdis hmem
    apply hk (h _ ?_)
    intro a ha
    rw [List.eq_of_mem_replicate ha]
    rfl
  · obtain ⟨e, socket, hk⟩ := not_quiet_of_channel hcon hcallback hreg
    exact hk (h _ (by simp [ConnectorAction.isStart]))

end

/-- After `stop` and its `stopInLoop`, and up to the next start, no run creates a socket or
invokes the callback exactly if no `startInLoop` is pending in the state `DisConnected` and
no channel is registered in the state `Connecting`. -/
theorem quiet_iff_settled {callback : Bool} {actions : List ConnectorAction} {s : Connector}
    (hrun : run step { newConnectionCallback := callback } actions = .ok s)
    (hstopped : s.stopped = true) :
    (∀ later : List ConnectorAction, (∀ a ∈ later, a.isStart = false) → Along step Quiet s later) ↔
      s.Settled := by
  constructor
  · exact settled_of_quiet
  · intro hsettled later hlater
    have hcleared := (stopsKnown_of_run hrun).stopped hstopped
    exact Stopped.quiet ⟨hcleared, hsettled⟩ hlater

/-- A connector that is stopped after it has reported its connection. -/
theorem quiet_iff_settled_connected : ∃ s, run step {}
    [.start true (.failed 5 einprogress), .event 0 ⟨pollOut, 0, false⟩, .stop true] = .ok s ∧
      ∀ later : List ConnectorAction,
        (∀ a ∈ later, a.isStart = false) → Along step Quiet s later := by
  have hcode : (run step {} [.start true (.failed 5 einprogress), .event 0 ⟨pollOut, 0, false⟩,
      .stop true]).map (fun s => (s.stopped, decide s.Settled)) = .ok (true, true) := by
    decide +kernel
  obtain ⟨s, hrun, hs⟩ := map_eq_ok.mp hcode
  simp only [Prod.mk.injEq, decide_eq_true_eq] at hs
  exact ⟨s, hrun, (quiet_iff_settled hrun hs.1).mpr hs.2⟩

/-- A connector that is stopped while the timer of a refused attempt is pending. -/
theorem not_quiet : ∃ s, run step {} [.start true (.failed 5 econnrefused), .stop true] = .ok s ∧
    s.stopped = true ∧ ¬ Along step Quiet s [.timer 0 (.failed 5 einprogress)] := by
  refine ⟨_, rfl, rfl, fun h => ?_⟩
  exact absurd (h.1 _ rfl).1 (by decide)

end Connector

end Reactor
