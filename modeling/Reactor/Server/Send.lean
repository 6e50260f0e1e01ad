import Reactor.Server.Ownership

/-!
# Calls from other threads

`send` and `shutdown` queue a functor that holds the pointer `this`, and `send` also the
address of the message. When the functor runs it reads whatever the memory then holds,
through an object that then exists or not. The calls work as in the loop thread if the
callers leave the memory alone until then, and if no last reference is given up before.
-/

namespace Reactor

open Transition

variable {ι : Type*}

/-- The functor reads the address. -/
def LoopFunctor.Reads : LoopFunctor ι → ℕ → Prop
  | .sendInLoop _ message datalen _, address => message ≤ address ∧ address < message + datalen
  | _, _ => False

instance (f : LoopFunctor ι) (address : ℕ) : Decidable (f.Reads address) := by
  unfold LoopFunctor.Reads
  split
  · infer_instance
  · infer_instance

namespace Server

variable [DecidableEq ι] [Fintype ι]

/-- The connections that queued functors call through `this` exist in the state `t`. -/
def TargetsOwned (s t : Server ι) : Prop :=
  ∀ l, ∀ f ∈ (s.loops l).unexecuted, ∀ conn ∈ f.target, t.Owned conn

/-- Nobody touches a message that a queued functor is to send, and no last reference to a
connection is dropped while a queued functor is to call it. -/
def Careful (s : Server ι) : ServerAction ι → Prop
  | .setMemory address _ => ∀ l, ∀ f ∈ (s.loops l).unexecuted, ¬ f.Reads address
  | .release conn => s.TargetsOwned { s with userRefs := s.userRefs.erase conn }
  | .endBatch l => s.TargetsOwned (s.setLoop l { s.loops l with phase := .handlers })
  | _ => True

instance (s t : Server ι) : Decidable (s.TargetsOwned t) := by
  unfold TargetsOwned
  infer_instance

instance (s : Server ι) (action : ServerAction ι) : Decidable (s.Careful action) := by
  unfold Careful
  split
  · infer_instance
  · infer_instance
  · infer_instance
  · infer_instance

/-- What the functor was queued for can be done in the state `s`. -/
def Executable (s : Server ι) : LoopFunctor ι → Prop
  | .sendInLoop conn message datalen sent =>
    s.Owned conn ∧ readMessage s.memory message datalen = some sent
  | .shutdownInLoop conn => s.Owned conn
  | _ => True

/-- The queued functors can do what they were queued for. -/
def Faithful (s : Server ι) : Prop := ∀ l f, s.Queued l f → s.Executable f

section

variable {s s' : Server ι} {c d : Connection ι} {l : ι} {f : LoopFunctor ι}

/-! ## References that a step does not drop -/

/-- The changed loop drops no reference. -/
theorem owned_setLoop {loop : ServerLoop ι} (hheld : ∀ f ∈ (s.loops l).held, f ∈ loop.held)
    (hc : s.Owned c) : (s.setLoop l loop).Owned c := by
  rcases owned_iff.mp hc with hmap | hremoving | huser | ⟨l', f, hf, hown⟩
  · exact owned_of_inMap hmap
  · exact owned_of_removing hremoving
  · exact owned_of_userRef huser
  · refine owned_of_held (l := l') ?_ hown
    rw [loops_setLoop]
    split
    · next heq =>
      subst heq
      exact hheld f hf
    · exact hf

/-- Queueing a functor takes no connection from its owners. -/
theorem owned_queueInLoop (hc : s.Owned c) : (s.queueInLoop l f).Owned c := by
  apply owned_setLoop ?_ hc
  intro g hg
  unfold ServerLoop.held at hg ⊢
  dsimp only
  split at hg
  · simp only [List.mem_append]
    exact .inl hg
  · simp only [List.mem_append] at hg ⊢
    tauto

/-- The functor taken still holds its connection. -/
theorem owned_popped {called rest : List (LoopFunctor ι)}
    (hphase : (s.loops l).phase = .functors called (f :: rest)) (hc : s.Owned c) :
    (s.popped l called f rest).Owned c := by
  apply owned_setLoop ?_ hc
  intro g hg
  simpa [ServerLoop.held, hphase] using hg

/-- What is sent does not matter for the owners. -/
theorem owned_setData {data : ConnectionData} (hd : s.Owned d) : (s.setData c data).Owned d := hd

/-- Establishing a connection takes none from its owners. -/
theorem owned_connectEstablished (hd : s.Owned d) : (s.connectEstablished c).Owned d := by
  unfold Server.connectEstablished
  apply owned_setData
  apply owned_setLoop ?_ hd
  intro f hf
  exact hf

/-- Unregistering a connection takes none from its owners. -/
theorem owned_unregistered (hd : s.Owned d) : (s.unregistered c).Owned d := by
  unfold unregistered
  apply owned_setLoop ?_ hd
  intro f hf
  exact hf

/-- The connection whose entry is erased is the one that is being removed. -/
theorem Sound.owned_removeConnection (h : s.Sound) (hc : s.Owned c) (hnone : s.removing = none)
    (hd : s.Owned d) : (s.removeConnection c).Owned d := by
  rcases owned_iff.mp hd with hmap | ⟨n, hn⟩ | huser | ⟨l', f, hf, hown⟩
  · by_cases heq : d = c
    · subst heq
      exact owned_of_removing ⟨_, rfl⟩
    · exact owned_of_inMap (h.inMap_removeConnection hc heq hmap)
  · rw [hnone] at hn
    cases hn
  · exact owned_of_userRef huser
  · exact owned_of_held hf hown

/-- The functor owns the connection in place of the removal. -/
theorem owned_queueRemoval {n : ℕ} (hremoving : s.removing = some (c, n)) (hd : s.Owned d) :
    ({ s with removing := none }.queueInLoop c.ioLoop (.removeConnectionInPoller c)).Owned d := by
  rcases owned_iff.mp hd with hmap | ⟨n', hn'⟩ | huser | ⟨l', f, hf, hown⟩
  · exact owned_queueInLoop (owned_of_inMap hmap)
  · rw [hremoving] at hn'
    obtain ⟨rfl, -⟩ := Prod.mk.inj (Option.some.inj hn')
    exact owned_of_queued (queued_queueInLoop_iff.mpr (.inr ⟨rfl, rfl⟩)) rfl
  · exact owned_queueInLoop (owned_of_userRef huser)
  · exact owned_queueInLoop (owned_of_held hf hown)

/-- Accepting takes no connection from its owners. -/
theorem Sound.owned_onConnection (h : s.Sound) {sockfd : ℕ} (hfd : ¬ s.FdOpen sockfd) (ioLoop : ι)
    (hd : s.Owned d) : (s.onConnection sockfd ioLoop).Owned d := by
  have haccepted : (s.accepted sockfd ioLoop).Owned d := by
    rcases owned_iff.mp hd with hmap | hremoving | huser | ⟨l', f, hf, hown⟩
    · exact owned_of_inMap (h.inMap_accepted hfd ioLoop hmap)
    · exact owned_of_removing hremoving
    · exact owned_of_userRef huser
    · exact owned_of_held hf hown
  unfold Server.onConnection
  dsimp only
  split
  · exact owned_connectEstablished haccepted
  · exact owned_queueInLoop haccepted

/-- A further reference takes no connection from its owners. -/
theorem owned_retain (c : Connection ι) (hd : s.Owned d) :
    Owned { s with userRefs := insert c s.userRefs } d := by
  rcases owned_iff.mp hd with hmap | hremoving | huser | ⟨l', f, hf, hown⟩
  · exact owned_of_inMap hmap
  · exact owned_of_removing hremoving
  · exact owned_of_userRef (Finset.mem_insert_of_mem huser)
  · exact owned_of_held hf hown

/-- Closing hands the connection over to its removal. -/
theorem Sound.owned_handleClose (h : s.Sound) (hc : s.Registered c) (hbusy : ¬ s.Busy c.ioLoop)
    (hd : s.Owned d) : (s.handleClose c).Owned d := by
  unfold Server.handleClose closeConnection
  split
  · next hbase =>
    have hnone := removing_eq_none hbusy hbase
    exact h.owned_removeConnection (h.kept hc).owned hnone hd
  · exact owned_queueInLoop (s := s.setData c _) hd

/-! ## The queued functors -/

/-- Only the cells of the message are read. -/
theorem readMessage_congr {memory memory' : ℕ → Option UInt8} {message datalen : ℕ}
    (h : ∀ a, message ≤ a → a < message + datalen → memory' a = memory a) :
    readMessage memory' message datalen = readMessage memory message datalen := by
  unfold readMessage
  rw [Memory.read_congr h]

/-- A functor stays executable while its target exists and its message is left alone. -/
theorem Executable.mono (h : s.Executable f)
    (howned : ∀ c, f.target = some c → s.Owned c → s'.Owned c)
    (hmemory : ∀ a, f.Reads a → s'.memory a = s.memory a) : s'.Executable f := by
  cases f with
  | sendInLoop c message datalen sent =>
    refine ⟨howned c rfl h.1, ?_⟩
    rw [readMessage_congr fun a hle hlt => hmemory a ⟨hle, hlt⟩]
    exact h.2
  | shutdownInLoop c => exact howned c rfl h
  | connectEstablished c | removeConnection c | removeConnectionInPoller c => trivial

/-- A step that queues no call and drops no reference. -/
theorem Faithful.mono (h : s.Faithful)
    (hqueued : ∀ l f, s'.Queued l f → s.Queued l f ∨ f.target = none)
    (howned : ∀ c, s.Owned c → s'.Owned c) (hmemory : s'.memory = s.memory) : s'.Faithful := by
  intro l f hf
  rcases hqueued l f hf with hbefore | hnone
  · exact (h l f hbefore).mono (fun c _ => howned c) fun a _ => congrFun hmemory a
  · cases f with
    | connectEstablished c | removeConnection c | removeConnectionInPoller c => trivial
    | sendInLoop c message datalen sent => cases hnone
    | shutdownInLoop c => cases hnone

/-- A call from another thread is queued. -/
theorem Faithful.queueInLoop (h : s.Faithful) (hf : s.Executable f) :
    (s.queueInLoop l f).Faithful := by
  intro l' g hg
  have hkeep : ∀ {g}, s.Executable g → (s.queueInLoop l f).Executable g := by
    intro g hg
    exact hg.mono (fun c _ hc => owned_queueInLoop hc) fun a _ => rfl
  rcases queued_queueInLoop_iff.mp hg with hbefore | ⟨-, rfl⟩
  · exact hkeep (h l' g hbefore)
  · exact hkeep hf

omit [Fintype ι] in
/-- Accepting writes no memory. -/
theorem memory_onConnection (s : Server ι) (sockfd : ℕ) (ioLoop : ι) :
    (s.onConnection sockfd ioLoop).memory = s.memory := by
  unfold onConnection
  dsimp only
  split
  · rfl
  · rfl

omit [Fintype ι] in
/-- A functor that has no target is queued. -/
theorem queued_of_queueInLoop {l' : ι} {g : LoopFunctor ι} (hg : g.target = none)
    (hf : (s.queueInLoop l' g).Queued l f) : s.Queued l f ∨ f.target = none := by
  rcases queued_queueInLoop_iff.mp hf with hbefore | ⟨-, rfl⟩
  · exact .inl hbefore
  · exact .inr hg

omit [Fintype ι] in
/-- Accepting queues no functor with a connection as its target. -/
theorem queued_of_onConnection {sockfd : ℕ} {ioLoop : ι}
    (hf : (s.onConnection sockfd ioLoop).Queued l f) : s.Queued l f ∨ f.target = none := by
  unfold Server.onConnection at hf
  dsimp only at hf
  split at hf
  · exact .inl (queued_connectEstablished.mp hf)
  · exact queued_of_queueInLoop rfl hf

omit [Fintype ι] in
/-- Closing queues no functor with a connection as its target. -/
theorem queued_of_handleClose (hf : (s.handleClose c).Queued l f) :
    s.Queued l f ∨ f.target = none := by
  unfold Server.handleClose closeConnection at hf
  split at hf
  · exact .inl hf
  · exact queued_of_queueInLoop rfl hf

omit [Fintype ι] in
/-- Closing writes no memory. -/
theorem memory_handleClose (s : Server ι) (c : Connection ι) :
    (s.handleClose c).memory = s.memory := by
  unfold Server.handleClose closeConnection
  split
  · rfl
  · rfl

/-- Sending in the loop keeps the queued calls faithful. -/
theorem Faithful.sendInLoop (h : s.Faithful) {message datalen : ℕ}
    (hok : s.sendInLoop c message datalen = .ok s') : s'.Faithful := by
  unfold Server.sendInLoop at hok
  split at hok
  · split at hok
    · obtain rfl := Except.ok.inj hok
      exact h.mono (fun _ _ => .inl) (fun _ => owned_setData) rfl
    · cases hok
  · cases hok

/-- Shutting down in the loop keeps the queued calls faithful. -/
theorem Faithful.shutdownInLoop (h : s.Faithful) (hok : s.shutdownInLoop c = .ok s') :
    s'.Faithful := by
  unfold Server.shutdownInLoop at hok
  split at hok
  · split at hok
    · obtain rfl := Except.ok.inj hok
      exact h.mono (fun _ _ => .inl) (fun _ => owned_setData) rfl
    · obtain rfl := Except.ok.inj hok
      exact h
  · cases hok

/-- The call of a functor leaves the others as they are. -/
theorem Faithful.call (h : s.Faithful) (hsound : s.Sound) {called rest : List (LoopFunctor ι)}
    (hphase : (s.loops l).phase = .functors called (f :: rest)) (hbusy : ¬ s.Busy l)
    (hok : (s.popped l called f rest).call f = .ok s') : s'.Faithful := by
  have hpopped : (s.popped l called f rest).Faithful :=
    h.mono (fun l' g hg => .inl (queued_of_popped hphase hg)) (fun c => owned_popped hphase) rfl
  cases f with
  | connectEstablished c =>
    obtain rfl := Except.ok.inj hok
    apply hpopped.mono ?_ (fun _ => owned_connectEstablished) rfl
    intro l' g hg
    exact .inl (queued_connectEstablished.mp hg)
  | removeConnection c =>
    obtain rfl := Except.ok.inj hok
    have hnone := removing_eq_none hbusy (hsound.removal_base l c (queued_next hphase))
    have hsound' := hsound.popped hphase (by simp)
    exact hpopped.mono (fun _ _ => .inl)
      (fun _ => hsound'.owned_removeConnection (owned_popped_self rfl) hnone) rfl
  | removeConnectionInPoller c =>
    obtain ⟨-, rfl⟩ := ite_eq_ok.mp hok
    change ((s.popped l called (.removeConnectionInPoller c) rest).unregistered c).Faithful
    apply hpopped.mono ?_ (fun _ => owned_unregistered) rfl
    intro l' g hg
    exact .inl (queued_unregistered.mp hg)
  | sendInLoop c message datalen sent => exact hpopped.sendInLoop hok
  | shutdownInLoop c => exact hpopped.shutdownInLoop hok

omit [DecidableEq ι] [Fintype ι] in
/-- A swap of the queue loses no functor. -/
theorem unexecuted_swap {loop : ServerLoop ι} (hphase : loop.phase = .handlers) :
    ServerLoop.unexecuted { loop with
      phase := .functors [] loop.pendingFunctors
      pendingFunctors := [] } = loop.unexecuted := by
  simp [ServerLoop.unexecuted, hphase]

omit [DecidableEq ι] [Fintype ι] in
/-- The end of the batch loses no functor. -/
theorem unexecuted_endBatch {loop : ServerLoop ι} {called : List (LoopFunctor ι)}
    (hphase : loop.phase = .functors called []) :
    ServerLoop.unexecuted { loop with phase := .handlers } = loop.unexecuted := by
  simp [ServerLoop.unexecuted, hphase]

omit [Fintype ι] in
/-- What is queued in a loop that is set was queued before. -/
theorem queued_of_setLoop {loop : ServerLoop ι} {l' : ι}
    (hunexecuted : loop.unexecuted = (s.loops l).unexecuted)
    (hf : (s.setLoop l loop).Queued l' f) : s.Queued l' f := by
  unfold Queued at hf ⊢
  rw [loops_setLoop] at hf
  split at hf
  · next heq =>
    subst heq
    rwa [hunexecuted] at hf
  · exact hf

/-- A step that drops references, but none that a queued functor needs. -/
theorem Faithful.drop (h : s.Faithful) (hqueued : ∀ l f, s'.Queued l f → s.Queued l f)
    (howned : s.TargetsOwned s') (hmemory : s'.memory = s.memory) : s'.Faithful := by
  intro l f hf
  have hbefore := hqueued l f hf
  apply (h l f hbefore).mono
  · intro c hc _
    exact howned l f hbefore c hc
  · intro a _
    exact congrFun hmemory a

/-- A step keeps what the queued functors need, if it is careful. -/
theorem Faithful.step (h : s.Faithful) (hsound : s.Sound) {action : ServerAction ι}
    (hcareful : s.Careful action) (hok : s.step action = .ok s') : s'.Faithful := by
  cases action with
  | onConnection sockfd ioLoop =>
    rw [Server.step] at hok
    split at hok
    · obtain ⟨⟨-, hfd⟩, rfl⟩ := ite_eq_ok.mp hok
      exact h.mono (fun _ _ => queued_of_onConnection)
        (fun _ => hsound.owned_onConnection hfd ioLoop)
        (memory_onConnection s sockfd ioLoop)
    · cases hok
  | handleClose c =>
    rw [Server.step] at hok
    split at hok
    · obtain ⟨⟨hregistered, hbusy⟩, rfl⟩ := ite_eq_ok.mp hok
      exact h.mono (fun _ _ => queued_of_handleClose)
        (fun _ => hsound.owned_handleClose hregistered hbusy) (memory_handleClose s c)
    · cases hok
  | queueRemoval =>
    rw [Server.step] at hok
    split at hok
    · next c hremoving =>
      obtain rfl := Except.ok.inj hok
      apply h.mono ?_ (fun _ => owned_queueRemoval hremoving) rfl
      exact fun l f => queued_of_queueInLoop rfl
    · cases hok
    · cases hok
  | swap l =>
    rw [Server.step] at hok
    split at hok
    · next hphase =>
      obtain ⟨-, rfl⟩ := ite_eq_ok.mp hok
      apply h.mono
      · intro l' f hf
        exact .inl (queued_of_setLoop (unexecuted_swap hphase) hf)
      · intro c hc
        apply owned_setLoop ?_ hc
        intro f hf
        simpa [ServerLoop.held, hphase] using hf
      · rfl
    · cases hok
  | callFunctor l =>
    rw [Server.step] at hok
    split at hok
    · next called f rest hphase =>
      split at hok
      · next hbusy => exact h.call hsound hphase hbusy hok
      · cases hok
    · cases hok
  | endBatch l =>
    rw [Server.step] at hok
    split at hok
    · next called hphase =>
      obtain ⟨-, rfl⟩ := ite_eq_ok.mp hok
      exact h.drop (fun l' f => queued_of_setLoop (unexecuted_endBatch hphase)) hcareful rfl
    · cases hok
  | retain c =>
    obtain ⟨hc, rfl⟩ := ite_eq_ok.mp hok
    exact h.mono (fun _ _ => .inl) (fun _ => owned_retain c) rfl
  | release c =>
    obtain ⟨-, rfl⟩ := ite_eq_ok.mp hok
    exact h.drop (fun _ _ hf => hf) hcareful rfl
  | send inLoop c message datalen =>
    rw [Server.step] at hok
    split at hok
    · next bytes hbytes =>
      split at hok
      · exact h.sendInLoop hok
      · obtain ⟨⟨-, hc⟩, rfl⟩ := ite_eq_ok.mp hok
        exact h.queueInLoop ⟨owned_of_userRef hc, hbytes⟩
    · cases hok
  | shutdown inLoop c =>
    rw [Server.step] at hok
    split at hok
    · exact h.shutdownInLoop hok
    · obtain ⟨⟨-, hc⟩, rfl⟩ := ite_eq_ok.mp hok
      have hexecutable : s.Executable (.shutdownInLoop c) :=
        owned_of_userRef hc
      exact h.queueInLoop hexecutable
  | setMemory address value =>
    obtain rfl := Except.ok.inj hok
    intro l f hf
    apply (h l f hf).mono
    · intro c _ hc
      exact hc
    · intro a ha
      have hne : a ≠ address := by
        rintro rfl
        exact hcareful l f hf ha
      exact Function.update_of_ne hne ..

/-! ## The calls run as they were made -/

end

end Server

/-! ## `sendInLoop` and the output buffer -/

namespace TcpConnection

/-- In both of its branches `sendInLoop` first appends the message to the output buffer. -/
theorem sendInLoop_eq (conn : TcpConnection) (message : List UInt8) (answer : Option ℕ)
    (complete : TcpConnection → Except ConnectionFault TcpConnection) :
    conn.sendInLoop message answer complete = conn.addOutput message >>= fun added =>
      if conn.isIdle then
        added.writeIovec message.length answer >>= fun (written, nwrite) =>
          written.afterSend nwrite message.length complete >>= (·.drainWritten nwrite)
      else .ok added := by
  unfold sendInLoop
  split
  · rfl
  · cases conn.addOutput message with
    | error e => rfl
    | ok added => rfl

end TcpConnection

end Reactor
