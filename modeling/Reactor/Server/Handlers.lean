import Reactor.Server.Release

/-!
# The handlers of the active channels

`EventLoop::loop` goes through the channels that `poll` has reported, and `handlerEvent` holds
`channelNoDestructor_` while the callbacks of a channel run. Between the report and the last
callback connections are closed, in this loop and in others, but a channel leaves its poller and
a connection is destroyed in a functor only: no channel of the list dangles, and none is destroyed
in its own handler.
-/

namespace Reactor

open Transition

/-- Where a loop is in the list of its active channels. -/
inductive HandlerTurn (ι : Type*) where
  /-- In `poll` or behind the list. -/
  | polling
  /-- At the head of the loop over `activeChannel_`, with the channels left. -/
  | between (rest : List (Connection ι))
  /-- In `handlerEvent` of the channel of `conn`, whose `channelNoDestructor_` is set. -/
  | handling (conn : Connection ι) (rest : List (Connection ι))
  deriving DecidableEq, Repr

/-- The connections whose channels the loop is going to use. -/
def HandlerTurn.active {ι : Type*} : HandlerTurn ι → List (Connection ι)
  | .polling => []
  | .between rest => rest
  | .handling conn rest => conn :: rest

/-- A server with the active channels of its loops. -/
structure PollingServer (ι : Type*) where
  server : Server ι
  turns : ι → HandlerTurn ι := fun _ => .polling

/-- A step of a loop through its active channels, or another step of the server. -/
inductive PollingAction (ι : Type*) where
  /-- `poll` reports the channels of the connections. -/
  | poll (l : ι) (conns : List (Connection ι))
  /-- `handlerEvent` of the next channel is called. -/
  | beginHandler (l : ι)
  /-- `handlerEvent` returns. -/
  | endHandler (l : ι)
  | server (action : ServerAction ι)

namespace PollingServer

variable {ι : Type*} [DecidableEq ι]

/-- The loop `l` is at a place in its list. -/
def setTurn (s : PollingServer ι) (l : ι) (turn : HandlerTurn ι) : PollingServer ι :=
  { s with turns := Function.update s.turns l turn }

/-- The place that an action of the server needs the loops to be at: the handler of a channel
closes its own connection, the acceptor's handler is one of the list, and the functors come
behind the list. -/
def Permits (s : PollingServer ι) : ServerAction ι → Prop
  | .handleClose conn => ∃ rest, s.turns conn.ioLoop = .handling conn rest
  | .onConnection _ _ => ∃ rest, s.turns s.server.base = .between rest
  | .swap l => s.turns l = .between []
  | _ => True

instance (s : PollingServer ι) (action : ServerAction ι) : Decidable (s.Permits action) :=
  match action with
  | .handleClose conn =>
    match h : s.turns conn.ioLoop with
    | .handling conn' rest =>
      decidable_of_iff (conn' = conn) (by simp [Permits, h])
    | .polling | .between _ => .isFalse (by simp [Permits, h])
  | .onConnection _ _ =>
    match h : s.turns s.server.base with
    | .between rest => .isTrue ⟨rest, h⟩
    | .polling | .handling _ _ => .isFalse (by simp [Permits, h])
  | .swap l => inferInstanceAs (Decidable (s.turns l = .between []))
  | .queueRemoval | .callFunctor _ | .endBatch _ | .retain _ | .release _ | .send _ _ _ _
  | .shutdown _ _ | .setMemory _ _ => .isTrue trivial

variable [Fintype ι]

/-- The use of a channel through the pointer in `activeChannel_`. -/
def access (s : PollingServer ι) (conn : Connection ι) (next : PollingServer ι) :
    Except ServerFault (PollingServer ι) :=
  if s.server.Owned conn then .ok next else .error (.fault .useAfterFree)

/-- A step of the interleaving. -/
def step (s : PollingServer ι) : PollingAction ι → Except ServerFault (PollingServer ι)
  | .poll l conns =>
    if s.turns l = .polling ∧ (s.server.loops l).phase = .handlers ∧ ¬ s.server.Busy l ∧
        ∀ conn ∈ conns, conn.ioLoop = l ∧ s.server.Registered conn then
      .ok (s.setTurn l (.between conns))
    else .error .disabled
  | .beginHandler l =>
    match s.turns l with
    | .between (conn :: rest) =>
      if ¬ s.server.Busy l then s.access conn (s.setTurn l (.handling conn rest))
      else .error .disabled
    | _ => .error .disabled
  | .endHandler l =>
    match s.turns l with
    | .handling conn rest =>
      if ¬ s.server.Busy l then s.access conn (s.setTurn l (.between rest))
      else .error .disabled
    | _ => .error .disabled
  | .server action =>
    if s.Permits action then
      (s.server.step action).map fun server =>
        match action with
        | .swap l => { s.setTurn l .polling with server }
        | _ => { s with server }
    else .error .disabled

end PollingServer

namespace Server

variable {ι : Type*} [DecidableEq ι] [Fintype ι]

/-- A channel is unregistered in the loop of its connection. -/
def InOwnLoop (s : Server ι) : Prop :=
  ∀ l conn, s.Queued l (.removeConnectionInPoller conn) → l = conn.ioLoop

section

variable {s s' : Server ι} {c d : Connection ι} {l : ι} {f : LoopFunctor ι}
  {action : ServerAction ι}

/-- The functor that a popped batch calls adds no functor that unregisters a channel. -/
theorem InOwnLoop.call (h : s.InOwnLoop) {called rest : List (LoopFunctor ι)}
    (hphase : (s.loops l).phase = .functors called (f :: rest))
    (hok : (s.popped l called f rest).call f = .ok s') : s'.InOwnLoop := by
  have hpopped : (s.popped l called f rest).InOwnLoop :=
    fun l' d hd => h l' d (queued_of_popped hphase hd)
  cases f with
  | connectEstablished c =>
    obtain rfl := Except.ok.inj hok
    exact fun l' d hd => hpopped l' d (queued_connectEstablished.mp hd)
  | removeConnection c =>
    obtain rfl := Except.ok.inj hok
    exact hpopped
  | removeConnectionInPoller c =>
    obtain ⟨-, rfl⟩ := ite_eq_ok.mp hok
    exact fun l' d hd => hpopped l' d (queued_unregistered.mp hd)
  | sendInLoop c message datalen sent =>
    exact fun l' d hd =>
      hpopped l' d (((frame_sendInLoop hok).queued_iff (by simp [LoopFunctor.owner])).mp hd)
  | shutdownInLoop c =>
    exact fun l' d hd =>
      hpopped l' d (((frame_shutdownInLoop hok).queued_iff (by simp [LoopFunctor.owner])).mp hd)

/-- Every connection keeps its loop, whatever is done. -/
theorem InOwnLoop.step (h : s.InOwnLoop) (hok : s.step action = .ok s') : s'.InOwnLoop := by
  rcases step_cases hok with hframe | ⟨sockfd, ioLoop, -, -, -, rfl⟩ | ⟨c, -, -, rfl⟩ |
    ⟨c, n, -, rfl⟩ | ⟨l, called, f, rest, hphase, -, hcall⟩
  · exact fun l d hd => h l d ((hframe.queued_iff (by simp [LoopFunctor.owner])).mp hd)
  · intro l d hd
    unfold Server.onConnection at hd
    dsimp only at hd
    split at hd
    · exact h l d (queued_connectEstablished.mp hd)
    · exact h l d ((queued_queueInLoop_iff.mp hd).resolve_right (by simp))
  · intro l d hd
    unfold Server.handleClose closeConnection at hd
    split at hd
    · exact h l d hd
    · exact h l d ((queued_queueInLoop_iff.mp hd).resolve_right (by simp))
  · intro l d hd
    rcases queued_queueInLoop_iff.mp hd with hold | ⟨rfl, heq⟩
    · exact h l d hold
    · rw [LoopFunctor.removeConnectionInPoller.inj heq]
  · exact h.call hphase hcall

omit [Fintype ι] in
/-- Queueing a functor registers nothing. -/
theorem registered_queueInLoop : (s.queueInLoop l f).Registered c ↔ s.Registered c := by
  unfold Registered
  rw [channelMap_queueInLoop]

/-- A functor unregisters no channel of another loop. -/
theorem InOwnLoop.registered_call (h : s.InOwnLoop) {called rest : List (LoopFunctor ι)}
    (hphase : (s.loops l).phase = .functors called (f :: rest)) (hne : l ≠ c.ioLoop)
    (hc : s.Registered c) (hok : (s.popped l called f rest).call f = .ok s') :
    s'.Registered c := by
  have hpopped : (s.popped l called f rest).Registered c := registered_popped.mpr hc
  cases f with
  | connectEstablished d =>
    obtain rfl := Except.ok.inj hok
    exact registered_connectEstablished_of hpopped
  | removeConnection d =>
    obtain rfl := Except.ok.inj hok
    exact hpopped
  | removeConnectionInPoller d =>
    have hown := h l d (queued_next hphase)
    obtain ⟨-, rfl⟩ := ite_eq_ok.mp hok
    change ((Server.unregistered _ d).loops c.ioLoop).channelMap.lookup c.sockfd = some c
    unfold Server.unregistered
    rw [loops_setLoop, if_neg]
    · exact hpopped
    · rw [← hown]
      exact hne.symm
  | sendInLoop d message datalen sent => exact (frame_sendInLoop hok).registered_iff.mpr hpopped
  | shutdownInLoop d => exact (frame_shutdownInLoop hok).registered_iff.mpr hpopped

/-- While its loop runs handlers a channel stays registered. -/
theorem InOwnLoop.registered_step (h : s.InOwnLoop) (hc : s.Registered c)
    (hphase : (s.loops c.ioLoop).phase = .handlers) (hok : s.step action = .ok s') :
    s'.Registered c := by
  rcases step_cases hok with hframe | ⟨sockfd, ioLoop, -, -, -, rfl⟩ | ⟨d, -, -, rfl⟩ |
    ⟨d, n, -, rfl⟩ | ⟨l, called, f, rest, hfunctors, -, hcall⟩
  · exact hframe.registered_iff.mpr hc
  · unfold Server.onConnection
    dsimp only
    split
    · exact registered_connectEstablished_of (s := s.accepted sockfd ioLoop) hc
    · exact registered_queueInLoop.mpr hc
  · unfold Server.handleClose closeConnection
    split
    · exact hc
    · exact registered_queueInLoop.mpr hc
  · exact registered_queueInLoop.mpr hc
  · refine h.registered_call hfunctors ?_ hc hcall
    rintro rfl
    rw [hphase] at hfunctors
    cases hfunctors

omit [Fintype ι] in
/-- Setting a loop leaves the phases of the others. -/
theorem phase_setLoop {loop : ServerLoop ι} {l' : ι}
    (hloop : l' = l → loop.phase = (s.loops l').phase) :
    ((s.setLoop l loop).loops l').phase = (s.loops l').phase := by
  rw [loops_setLoop]
  split
  · next heq => exact hloop heq
  · rfl

omit [Fintype ι] in
/-- Queueing a functor leaves each loop in its phase. -/
@[simp] theorem phase_queueInLoop (s : Server ι) (l : ι) (f : LoopFunctor ι) (l' : ι) :
    ((s.queueInLoop l f).loops l').phase = (s.loops l').phase :=
  phase_setLoop fun heq => by rw [heq]

omit [Fintype ι] in
/-- Establishing a connection leaves each loop in its phase. -/
@[simp] theorem phase_connectEstablished (s : Server ι) (c : Connection ι) (l : ι) :
    ((s.connectEstablished c).loops l).phase = (s.loops l).phase :=
  phase_setLoop fun heq => by rw [heq]

omit [Fintype ι] in
/-- Closing a connection leaves each loop in its phase. -/
theorem phase_handleClose (s : Server ι) (c : Connection ι) (l : ι) :
    ((s.handleClose c).loops l).phase = (s.loops l).phase := by
  unfold Server.handleClose closeConnection
  split
  · rfl
  · exact phase_queueInLoop ..

/-- Sending leaves each loop in its phase. -/
theorem phase_sendInLoop {message datalen : ℕ} (hok : s.sendInLoop c message datalen = .ok s')
    (l : ι) : (s'.loops l).phase = (s.loops l).phase := by
  unfold Server.sendInLoop at hok
  split at hok
  · split at hok
    · obtain rfl := Except.ok.inj hok
      rfl
    · cases hok
  · cases hok

/-- Shutting down leaves each loop in its phase. -/
theorem phase_shutdownInLoop (hok : s.shutdownInLoop c = .ok s') (l : ι) :
    (s'.loops l).phase = (s.loops l).phase := by
  unfold Server.shutdownInLoop at hok
  split at hok
  · split at hok
    · obtain rfl := Except.ok.inj hok
      rfl
    · obtain rfl := Except.ok.inj hok
      rfl
  · cases hok

/-- The call of a functor moves no other loop on. -/
theorem phase_call {called rest : List (LoopFunctor ι)} {l' : ι} (hne : l' ≠ l)
    (hok : (s.popped l called f rest).call f = .ok s') :
    (s'.loops l').phase = (s.loops l').phase := by
  have hpopped : ((s.popped l called f rest).loops l').phase = (s.loops l').phase :=
    phase_setLoop fun heq => absurd heq hne
  rw [← hpopped]
  cases f with
  | connectEstablished c =>
    obtain rfl := Except.ok.inj hok
    exact phase_connectEstablished ..
  | removeConnection c =>
    obtain rfl := Except.ok.inj hok
    rfl
  | removeConnectionInPoller c =>
    obtain ⟨-, rfl⟩ := ite_eq_ok.mp hok
    exact phase_setLoop fun heq => by rw [heq]
  | sendInLoop c message datalen sent => exact phase_sendInLoop hok l'
  | shutdownInLoop c => exact phase_shutdownInLoop hok l'

/-- Only the swap takes a loop away from its handlers. -/
theorem phase_step (hok : s.step action = .ok s') (hphase : (s.loops l).phase = .handlers)
    (hswap : action ≠ .swap l) : (s'.loops l).phase = .handlers := by
  rw [← hphase]
  cases action with
  | onConnection sockfd ioLoop =>
    rw [Server.step] at hok
    split at hok
    · obtain ⟨-, rfl⟩ := ite_eq_ok.mp hok
      unfold Server.onConnection
      dsimp only
      split
      · exact phase_connectEstablished ..
      · exact phase_queueInLoop ..
    · cases hok
  | handleClose c =>
    rw [Server.step] at hok
    split at hok
    · obtain ⟨-, rfl⟩ := ite_eq_ok.mp hok
      exact phase_handleClose s c l
    · cases hok
  | queueRemoval =>
    rw [Server.step] at hok
    split at hok
    · obtain rfl := Except.ok.inj hok
      exact phase_queueInLoop ..
    · cases hok
    · cases hok
  | swap l' =>
    have hne : l ≠ l' := by
      rintro rfl
      exact hswap rfl
    rw [Server.step] at hok
    split at hok
    · obtain ⟨-, rfl⟩ := ite_eq_ok.mp hok
      exact phase_setLoop fun heq => absurd heq hne
    · cases hok
  | callFunctor l' =>
    rw [Server.step] at hok
    split at hok
    · next called f rest hfunctors =>
      obtain ⟨-, hcall⟩ := guard_eq_ok.mp hok
      refine phase_call ?_ hcall
      rintro rfl
      rw [hphase] at hfunctors
      cases hfunctors
    · cases hok
  | endBatch l' =>
    rw [Server.step] at hok
    split at hok
    · obtain ⟨-, rfl⟩ := ite_eq_ok.mp hok
      refine phase_setLoop ?_
      rintro rfl
      exact hphase.symm
    · cases hok
  | retain c | release c =>
    obtain ⟨-, rfl⟩ := ite_eq_ok.mp hok
    rfl
  | send inLoop c message datalen =>
    rw [Server.step] at hok
    split at hok
    · split at hok
      · exact phase_sendInLoop hok l
      · obtain ⟨-, rfl⟩ := ite_eq_ok.mp hok
        exact phase_queueInLoop ..
    · cases hok
  | shutdown inLoop c =>
    rw [Server.step] at hok
    split at hok
    · exact phase_shutdownInLoop hok l
    · obtain ⟨-, rfl⟩ := ite_eq_ok.mp hok
      exact phase_queueInLoop ..
  | setMemory address value =>
    obtain rfl := Except.ok.inj hok
    rfl

end

end Server

namespace PollingServer

variable {ι : Type*} [DecidableEq ι] [Fintype ι]

/-- The channels that the loops are going to use are registered, and none of them is unregistered
meanwhile. -/
structure Dispatching (s : PollingServer ι) : Prop where
  server : s.server.Sound
  inOwnLoop : s.server.InOwnLoop
  handlers : ∀ l, s.turns l ≠ .polling → (s.server.loops l).phase = .handlers
  registered : ∀ l, ∀ conn ∈ (s.turns l).active, conn.ioLoop = l ∧ s.server.Registered conn

/-- No channel that a loop is going to use has been destroyed; the one whose callbacks run is one
of them. -/
def NoneDangles (s : PollingServer ι) : Prop :=
  ∀ l, ∀ conn ∈ (s.turns l).active, s.server.Owned conn

section

variable {s s' : PollingServer ι} {l : ι}

/-- Where the list is gone through in order no channel dangles. -/
theorem Dispatching.noneDangles (h : s.Dispatching) : s.NoneDangles :=
  fun l conn hconn => (h.server.kept (h.registered l conn hconn).2).owned

/-- A loop moves on in its list. -/
theorem Dispatching.setTurn (h : s.Dispatching) {turn : HandlerTurn ι}
    (hhandlers : turn ≠ .polling → (s.server.loops l).phase = .handlers)
    (hregistered : ∀ conn ∈ turn.active, conn.ioLoop = l ∧ s.server.Registered conn) :
    (s.setTurn l turn).Dispatching where
  server := h.server
  inOwnLoop := h.inOwnLoop
  handlers l' hl' := by
    by_cases heq : l' = l
    · subst heq
      exact hhandlers (by simpa [PollingServer.setTurn] using hl')
    · refine h.handlers l' ?_
      simpa [PollingServer.setTurn, heq] using hl'
  registered l' conn hconn := by
    by_cases heq : l' = l
    · subst heq
      exact hregistered conn (by simpa [PollingServer.setTurn] using hconn)
    · refine h.registered l' conn ?_
      simpa [PollingServer.setTurn, heq] using hconn

/-- A loop goes on with a part of its list. -/
theorem Dispatching.goOn (h : s.Dispatching) {turn : HandlerTurn ι}
    (hturn : s.turns l ≠ .polling) (hsub : turn.active ⊆ (s.turns l).active) :
    (s.setTurn l turn).Dispatching :=
  h.setTurn (fun _ => h.handlers l hturn) fun conn hconn => h.registered l conn (hsub hconn)

/-- An access that succeeds goes on. -/
theorem access_eq_ok {conn : Connection ι} {next : PollingServer ι}
    (hok : s.access conn next = .ok s') : next = s' := (ite_eq_ok.mp hok).2

/-- What a step of the server does to the lists. -/
theorem step_server {action : ServerAction ι} (hok : s.step (.server action) = .ok s') :
    ∃ u, s.server.step action = .ok u ∧ s.Permits action ∧
      ((∃ l, action = .swap l ∧ s' = { s.setTurn l .polling with server := u }) ∨
        (∀ l, action ≠ .swap l) ∧ s' = { s with server := u }) := by
  obtain ⟨hpermits, hok⟩ := guard_eq_ok.mp hok
  obtain ⟨u, hstep, rfl⟩ := map_eq_ok.mp hok
  refine ⟨u, hstep, hpermits, ?_⟩
  cases action with
  | swap l => exact .inl ⟨l, rfl, rfl⟩
  | _ => exact .inr ⟨by simp, rfl⟩

/-- A step of the server leaves the lists of all loops safe. -/
theorem Dispatching.server_step (h : s.Dispatching) {action : ServerAction ι}
    (hok : s.step (.server action) = .ok s') : s'.Dispatching := by
  obtain ⟨u, hstep, hpermits, hcases⟩ := step_server hok
  have hsound := h.server.step hstep
  have hown := h.inOwnLoop.step hstep
  have hregistered : ∀ l, ∀ conn ∈ (s.turns l).active, conn.ioLoop = l ∧ u.Registered conn := by
    intro l conn hconn
    obtain ⟨hl, hreg⟩ := h.registered l conn hconn
    refine ⟨hl, h.inOwnLoop.registered_step hreg (h.handlers conn.ioLoop ?_) hstep⟩
    rw [hl]
    rintro hpolling
    rw [hpolling] at hconn
    cases hconn
  rcases hcases with ⟨l, rfl, rfl⟩ | ⟨hswap, rfl⟩
  · have hnext : Dispatching { s with
        server := u
        turns := Function.update s.turns l .polling } := by
      refine ⟨hsound, hown, fun l' hl' => ?_, fun l' conn hconn => ?_⟩
      · by_cases heq : l' = l
        · subst heq
          simp at hl'
        · refine Server.phase_step hstep (h.handlers l' ?_) (by simpa using Ne.symm heq)
          simpa [heq] using hl'
      · by_cases heq : l' = l
        · subst heq
          simp [HandlerTurn.active] at hconn
        · exact hregistered l' conn (by simpa [heq] using hconn)
    exact hnext
  · exact ⟨hsound, hown, fun l' hl' => Server.phase_step hstep (h.handlers l' hl') (hswap l'),
      hregistered⟩

/-- Every step of the interleaving keeps the invariant. -/
theorem Dispatching.step (h : s.Dispatching) {a : PollingAction ι} (hok : s.step a = .ok s') :
    s'.Dispatching := by
  cases a with
  | poll l conns =>
    obtain ⟨⟨-, hphase, -, hconns⟩, rfl⟩ := ite_eq_ok.mp hok
    exact h.setTurn (fun _ => hphase) hconns
  | beginHandler l =>
    rw [PollingServer.step] at hok
    split at hok
    · next conn rest hturn =>
      obtain ⟨-, hok⟩ := guard_eq_ok.mp hok
      obtain rfl := access_eq_ok hok
      apply h.goOn (by simp [hturn])
      rw [hturn]
      exact List.Subset.refl _
    · cases hok
  | endHandler l =>
    rw [PollingServer.step] at hok
    split at hok
    · next conn rest hturn =>
      obtain ⟨-, hok⟩ := guard_eq_ok.mp hok
      obtain rfl := access_eq_ok hok
      apply h.goOn (by simp [hturn])
      rw [hturn]
      exact List.subset_cons_self _ _
    · cases hok
  | server action => exact h.server_step hok

/-- The channel that a loop uses is there. -/
theorem Dispatching.access_ne_fault (h : s.Dispatching) {conn : Connection ι}
    (hconn : conn ∈ (s.turns l).active) (next : PollingServer ι) (fault : Fault) :
    (if ¬ s.server.Busy l then s.access conn next else .error .disabled) ≠
      .error (.fault fault) := by
  have howned : s.access conn next = .ok next := if_pos (h.noneDangles l conn hconn)
  rw [howned]
  split <;> simp

/-- The step of a loop through its list does not fail. -/
theorem Dispatching.not_fault (h : s.Dispatching) {a : PollingAction ι}
    (ha : a = .beginHandler l ∨ a = .endHandler l) (fault : Fault) :
    s.step a ≠ .error (.fault fault) := by
  rcases ha with rfl | rfl
  · rw [PollingServer.step]
    split
    · next conn rest hturn =>
      exact h.access_ne_fault (by rw [hturn]; exact List.mem_cons_self) _ fault
    · simp
  · rw [PollingServer.step]
    split
    · next conn rest hturn =>
      exact h.access_ne_fault (by rw [hturn]; exact List.mem_cons_self) _ fault
    · simp

end

/-- A server that has accepted no connection, whose loops have not polled yet. -/
def started (name : String) (base : ι) (memory : ℕ → Option UInt8) : PollingServer ι where
  server := Server.started name base memory

/-- A server that has been started has no active channels. -/
theorem dispatching_started (name : String) (base : ι) (memory : ℕ → Option UInt8) :
    (started name base memory).Dispatching where
  server := Server.sound_started name base memory
  inOwnLoop l conn hconn := by cases hconn
  handlers l hl := absurd rfl hl
  registered l conn hconn := by cases hconn

/-- A step leaves no channel of a list dangling, and a loop finds the channels of its list. -/
def DispatchSafe (_ : PollingServer ι) (a : PollingAction ι)
    (r : Except ServerFault (PollingServer ι)) : Prop :=
  (∀ l fault, a = .beginHandler l ∨ a = .endHandler l → r ≠ .error (.fault fault)) ∧
    ∀ s', r = .ok s' → s'.NoneDangles

/-- In every interleaving of the loops, the active channels of a loop exist until the loop has
gone through them, and no channel is destroyed while its callbacks run. -/
theorem along_dispatchSafe (name : String) (base : ι) (memory : ℕ → Option UInt8)
    (actions : List (PollingAction ι)) :
    Along step DispatchSafe (started name base memory) actions := by
  apply along_of_guarded Dispatching ?_ ?_ (dispatching_started name base memory) guarded_true
  · exact fun s a h _ => ⟨fun l fault ha => h.not_fault ha fault,
      fun s' hok => (h.step hok).noneDangles⟩
  · exact fun s a s' h _ hok => h.step hok

end PollingServer

end Reactor
