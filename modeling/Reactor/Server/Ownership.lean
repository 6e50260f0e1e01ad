import Reactor.Server.Removal

/-!
# Ownership of the connections

Every step of the loops, of the kernel and of user code keeps the invariant of the
server. A registered channel therefore belongs to a connection that the map or a functor
refers to, and no two connections that exist share a name.
-/

namespace Reactor

open Transition

namespace Server

variable {ι : Type*} [DecidableEq ι] [Fintype ι]

section

variable {s s' : Server ι} {c d : Connection ι} {l : ι} {f : LoopFunctor ι}

/-! ## Accepting a connection -/

omit [DecidableEq ι] [Fintype ι] in
/-- The entries behind `connections_[name] = conn`. -/
theorem lookup_insert_iff {key : String} {connections : Finmap fun _ : String => Connection ι}
    {name : String} :
    (connections.insert name c).lookup key = some d ↔
      key = name ∧ d = c ∨ key ≠ name ∧ connections.lookup key = some d := by
  by_cases heq : key = name
  · subst heq
    simp [eq_comm]
  · simp [heq, Finmap.lookup_insert_of_ne]

/-- The state behind `connections_[name] = conn`. -/
def accepted (s : Server ι) (sockfd : ℕ) (ioLoop : ι) : Server ι :=
  { s with
    nextId := s.nextId + 1
    connections := s.connections.insert (s.nameOf sockfd) ⟨s.nextId, sockfd, ioLoop⟩ }

/-- The socket of an owned connection is open. -/
theorem fdOpen_of_owned (hc : s.Owned c) : s.FdOpen c.sockfd := ⟨c, hc, rfl⟩

/-- Accepting creates the one connection. -/
theorem owned_of_accepted {sockfd : ℕ} {ioLoop : ι} (hd : (s.accepted sockfd ioLoop).Owned d) :
    s.Owned d ∨ d = ⟨s.nextId, sockfd, ioLoop⟩ := by
  rcases owned_iff.mp hd with ⟨key, hkey⟩ | hremoving | huser | ⟨l', f, hf, hown⟩
  · rcases lookup_insert_iff.mp hkey with ⟨-, rfl⟩ | ⟨-, hbefore⟩
    · exact .inr rfl
    · exact .inl (owned_of_inMap ⟨key, hbefore⟩)
  · exact .inl (owned_of_removing hremoving)
  · exact .inl (owned_of_userRef huser)
  · exact .inl (owned_of_held hf hown)

/-- No entry has the name of a descriptor that is not open. -/
theorem Sound.lookup_eq_none (h : s.Sound) {sockfd : ℕ} (hfd : ¬ s.FdOpen sockfd) :
    s.connections.lookup (s.nameOf sockfd) = none := by
  cases hlookup : s.connections.lookup (s.nameOf sockfd) with
  | none => rfl
  | some c =>
    have hkey := nameOf_inj (h.key_eq _ _ hlookup)
    subst hkey
    exact absurd (fdOpen_of_owned (owned_of_inMap ⟨_, hlookup⟩)) hfd

/-- An accepted connection replaces none in the map. -/
theorem Sound.inMap_accepted (h : s.Sound) {sockfd : ℕ} (hfd : ¬ s.FdOpen sockfd) (ioLoop : ι)
    (hd : s.InMap d) : (s.accepted sockfd ioLoop).InMap d := by
  obtain ⟨key, hkey⟩ := hd
  refine ⟨key, lookup_insert_iff.mpr (.inr ⟨?_, hkey⟩)⟩
  rintro rfl
  rw [h.lookup_eq_none hfd] at hkey
  cases hkey

/-- The kernel returns a descriptor that is not open. -/
theorem Sound.accepted (h : s.Sound) {sockfd : ℕ} (hfd : ¬ s.FdOpen sockfd) (ioLoop : ι) :
    (s.accepted sockfd ioLoop).Sound where
  key_eq key d hkey := by
    rcases lookup_insert_iff.mp hkey with ⟨rfl, rfl⟩ | ⟨-, hbefore⟩
    · rfl
    · exact h.key_eq key d hbefore
  id_lt d hd := by
    change d.id < s.nextId + 1
    rcases owned_of_accepted hd with hbefore | rfl
    · have hlt := h.id_lt d hbefore
      omega
    · exact Nat.lt_succ_self s.nextId
  eq_of_sockfd_eq d d' hd hd' heq := by
    rcases owned_of_accepted hd with hbefore | rfl
    · rcases owned_of_accepted hd' with hbefore' | rfl
      · exact h.eq_of_sockfd_eq d d' hbefore hbefore' heq
      · have hopen := fdOpen_of_owned hbefore
        rw [heq] at hopen
        exact absurd hopen hfd
    · rcases owned_of_accepted hd' with hbefore' | rfl
      · have hopen := fdOpen_of_owned hbefore'
        rw [← heq] at hopen
        exact absurd hopen hfd
      · rfl
  registered l fd d hlookup := by
    obtain ⟨hl, hfd', hkept⟩ := h.registered l fd d hlookup
    exact ⟨hl, hfd', hkept.imp_left (h.inMap_accepted hfd ioLoop)⟩
  establishing l d hqueued := by
    obtain ⟨hl, hnew⟩ := h.establishing l d hqueued
    exact ⟨hl, h.inMap_accepted hfd ioLoop hnew.inMap, hnew.not_registered, hnew.not_removing,
      hnew.not_removed, hnew.not_unregistered⟩
  once := h.once
  removal_base := h.removal_base

/-- A connection that does not exist yet is nowhere. -/
theorem Sound.not_owned (h : s.Sound) {sockfd : ℕ} {ioLoop : ι} :
    ¬ s.Owned ⟨s.nextId, sockfd, ioLoop⟩ := by
  intro howned
  have hlt := h.id_lt _ howned
  exact absurd hlt (Nat.lt_irrefl _)

/-- An accepted connection is new. -/
theorem Sound.new_accepted (h : s.Sound) (sockfd : ℕ) (ioLoop : ι) :
    (s.accepted sockfd ioLoop).New ⟨s.nextId, sockfd, ioLoop⟩ where
  inMap := ⟨s.nameOf sockfd, lookup_insert_iff.mpr (.inl ⟨rfl, rfl⟩)⟩
  not_registered hregistered := h.not_owned (h.kept hregistered).owned
  not_removing hremoving := h.not_owned (owned_of_removing hremoving)
  not_removed _ hqueued := h.not_owned (owned_of_queued hqueued rfl)
  not_unregistered _ hqueued := h.not_owned (owned_of_queued hqueued rfl)

/-- A connection in the map waits to be established in its loop. -/
theorem Sound.queueEstablish (h : s.Sound) (hnew : s.New c)
    (hdone : ∀ l, ¬ s.Queued l (.connectEstablished c)) :
    (s.queueInLoop c.ioLoop (.connectEstablished c)).Sound := by
  have howned : ∀ d, (s.queueInLoop c.ioLoop (.connectEstablished c)).Owned d → s.Owned d := by
    intro d hd
    apply owned_of_queueInLoop ?_ hd
    intro d' hd'
    obtain rfl := Option.some.inj hd'
    exact owned_of_inMap hnew.inMap
  have hkeep : ∀ {d}, s.New d → (s.queueInLoop c.ioLoop (.connectEstablished c)).New d := by
    intro d hd
    refine ⟨hd.inMap, ?_, hd.not_removing, ?_, ?_⟩
    · unfold Registered
      rw [channelMap_queueInLoop]
      exact hd.not_registered
    · intro l hqueued
      exact hd.not_removed l ((queued_queueInLoop_iff.mp hqueued).resolve_right (by simp))
    · intro l hqueued
      exact hd.not_unregistered l ((queued_queueInLoop_iff.mp hqueued).resolve_right (by simp))
  refine ⟨h.key_eq, fun d hd => h.id_lt d (howned d hd),
    fun d d' hd hd' => h.eq_of_sockfd_eq d d' (howned d hd) (howned d' hd'), ?_, ?_, ?_, ?_⟩
  · intro l fd d hlookup
    rw [channelMap_queueInLoop] at hlookup
    obtain ⟨hl, hfd, hkept⟩ := h.registered l fd d hlookup
    exact ⟨hl, hfd, hkept.imp_right (Or.imp_right fun hqueued =>
      queued_queueInLoop_iff.mpr (.inl hqueued))⟩
  · intro l d hqueued
    rcases queued_queueInLoop_iff.mp hqueued with hbefore | ⟨rfl, heq⟩
    · obtain ⟨hl, hd⟩ := h.establishing l d hbefore
      exact ⟨hl, hkeep hd⟩
    · obtain rfl : d = c := by simpa using heq
      exact ⟨rfl, hkeep hnew⟩
  · intro l d
    by_cases heq : d = c
    · subst heq
      have hzero := List.count_eq_zero.mpr (hdone l)
      rw [unexecuted_queueInLoop]
      split
      · next hl =>
        subst hl
        simp [hzero]
      · omega
    · rw [count_queueInLoop _ _ _ _ (by simpa using heq)]
      exact h.once l d
  · intro l d hqueued
    exact h.removal_base l d ((queued_queueInLoop_iff.mp hqueued).resolve_right (by simp))

/-- Accepting a connection keeps the server sound if the kernel gives a free descriptor. -/
theorem Sound.onConnection (h : s.Sound) {sockfd : ℕ} (hfd : ¬ s.FdOpen sockfd) (ioLoop : ι) :
    (s.onConnection sockfd ioLoop).Sound := by
  have haccepted := h.accepted hfd ioLoop
  have hdone : ∀ l, ¬ (s.accepted sockfd ioLoop).Queued l
      (.connectEstablished ⟨s.nextId, sockfd, ioLoop⟩) := by
    intro l hqueued
    have hbefore : s.Queued l (.connectEstablished ⟨s.nextId, sockfd, ioLoop⟩) := hqueued
    exact h.not_owned (owned_of_queued hbefore rfl)
  unfold Server.onConnection
  dsimp only
  split
  · exact haccepted.connectEstablished (h.new_accepted sockfd ioLoop).inMap hdone
  · exact haccepted.queueEstablish (h.new_accepted sockfd ioLoop) hdone

/-! ## Closing a connection -/

/-- Closing a connection keeps the server sound if no other is being closed by the loop. -/
theorem Sound.handleClose (h : s.Sound) (hc : s.Registered c) (hbusy : ¬ s.Busy c.ioLoop) :
    (s.handleClose c).Sound := by
  have howned := (h.kept hc).owned
  have hnot : ¬ s.New c := fun hnew => hnew.not_registered hc
  unfold Server.handleClose closeConnection
  split
  · next hbase =>
    have hnone := removing_eq_none hbusy hbase
    have hremoved := h.removeConnection howned hnone fun l hqueued =>
      hnot (h.establishing l c hqueued).2
    exact hremoved.frame (frame_setData _ c _)
  · have hqueued : (s.queueInLoop s.base (.removeConnection c)).Sound := by
      apply h.queueInLoop
      · intro d hd
        obtain rfl := Option.some.inj hd
        exact ⟨howned, hnot⟩
      · simp
      · simp
    exact hqueued.frame (frame_setData _ c _)

/-! ## The interleaving -/

/-- Sending only queues functors that name no owner. -/
theorem frame_sendInLoop {message datalen : ℕ}
    (hok : s.sendInLoop c message datalen = .ok s') : s.Frame s' := by
  unfold sendInLoop at hok
  split at hok
  · split at hok
    · obtain rfl := Except.ok.inj hok
      exact frame_setData _ c _
    · cases hok
  · cases hok

/-- Shutting down only queues functors that name no owner. -/
theorem frame_shutdownInLoop (hok : s.shutdownInLoop c = .ok s') : s.Frame s' := by
  unfold shutdownInLoop at hok
  split at hok
  · split at hok
    · obtain rfl := Except.ok.inj hok
      exact frame_setData _ c _
    · obtain rfl := Except.ok.inj hok
      exact ⟨rfl, rfl, rfl, rfl, rfl, fun _ => rfl, fun _ _ _ => rfl, fun _ hd => hd⟩
  · cases hok

/-- The batch keeps the functor that runs. -/
theorem owned_popped_self {called rest : List (LoopFunctor ι)} (hc : f.owner = some c) :
    (s.popped l called f rest).Owned c := by
  have hheld : f ∈ ((s.popped l called f rest).loops l).held := by
    unfold popped
    rw [loops_setLoop, if_pos rfl]
    simp [ServerLoop.held]
  exact owned_of_held hheld hc

/-- A functor of a batch is called. -/
theorem Sound.call {called rest : List (LoopFunctor ι)} (h : s.Sound)
    (hphase : (s.loops l).phase = .functors called (f :: rest)) (hbusy : ¬ s.Busy l)
    (hok : (s.popped l called f rest).call f = .ok s') : s'.Sound := by
  have hqueued := queued_next hphase
  cases f with
  | connectEstablished c =>
    obtain rfl := Except.ok.inj hok
    have hpopped := h.popped hphase (by simp)
    have hnew := (h.establishing l c hqueued).2
    apply hpopped.connectEstablished hnew.inMap
    intro l' hagain
    -- The functor was there once, and it has been called.
    have honce := h.once l c
    have hl := (h.establishing l c hqueued).1
    have hl' := (hpopped.establishing l' c hagain).1
    obtain rfl : l' = l := hl'.trans hl.symm
    have hpos := List.count_pos_iff.mpr hagain
    rw [unexecuted_popped_self hphase, List.count_cons_self] at honce
    omega
  | removeConnection c =>
    obtain rfl := Except.ok.inj hok
    have hpopped := h.popped hphase (by simp)
    have hnone := removing_eq_none hbusy (h.removal_base l c hqueued)
    apply hpopped.removeConnection (owned_popped_self rfl) hnone
    intro l' hestablish
    have hnew := (h.establishing l' c (queued_of_popped hphase hestablish)).2
    exact hnew.not_removed l hqueued
  | removeConnectionInPoller c =>
    obtain ⟨-, rfl⟩ := ite_eq_ok.mp hok
    exact h.unregistered hphase
  | sendInLoop c message datalen sent =>
    exact h.frame ((frame_popped hphase rfl).trans (frame_sendInLoop hok))
  | shutdownInLoop c =>
    exact h.frame ((frame_popped hphase rfl).trans (frame_shutdownInLoop hok))

/-- What a step can do. -/
theorem step_cases {action : ServerAction ι} (hok : s.step action = .ok s') :
    s.Frame s' ∨
    (∃ sockfd ioLoop, action = .onConnection sockfd ioLoop ∧ s.removing = none ∧
      ¬ s.FdOpen sockfd ∧ s' = s.onConnection sockfd ioLoop) ∨
    (∃ c, s.Registered c ∧ ¬ s.Busy c.ioLoop ∧ s' = s.handleClose c) ∨
    (∃ c n, s.removing = some (c, n) ∧
      s' = { s with removing := none }.queueInLoop c.ioLoop (.removeConnectionInPoller c)) ∨
    ∃ l called f rest, (s.loops l).phase = .functors called (f :: rest) ∧ ¬ s.Busy l ∧
      (s.popped l called f rest).call f = .ok s' := by
  cases action with
  | onConnection sockfd ioLoop =>
    right; left
    rw [step] at hok
    split at hok
    · obtain ⟨⟨hnone, hfd⟩, rfl⟩ := ite_eq_ok.mp hok
      exact ⟨sockfd, ioLoop, rfl, hnone, hfd, rfl⟩
    · cases hok
  | handleClose c =>
    right; right; left
    rw [step] at hok
    split at hok
    · obtain ⟨⟨hregistered, hbusy⟩, rfl⟩ := ite_eq_ok.mp hok
      exact ⟨c, hregistered, hbusy, rfl⟩
    · cases hok
  | queueRemoval =>
    right; right; right; left
    rw [step] at hok
    split at hok
    · next c hremoving =>
      obtain rfl := Except.ok.inj hok
      exact ⟨c, 1, hremoving, rfl⟩
    · cases hok
    · cases hok
  | swap l =>
    left
    rw [step] at hok
    split at hok
    · next hphase =>
      obtain ⟨-, rfl⟩ := ite_eq_ok.mp hok
      exact frame_swap hphase
    · cases hok
  | callFunctor l =>
    right; right; right; right
    rw [step] at hok
    split at hok
    · next called f rest hphase =>
      split at hok
      · next hbusy => exact ⟨l, called, f, rest, hphase, hbusy, hok⟩
      · cases hok
    · cases hok
  | endBatch l =>
    left
    rw [step] at hok
    split at hok
    · next called hphase =>
      obtain ⟨-, rfl⟩ := ite_eq_ok.mp hok
      exact frame_endBatch hphase
    · cases hok
  | retain c =>
    left
    obtain ⟨hc, rfl⟩ := ite_eq_ok.mp hok
    apply frame_setUserRefs
    intro d hd
    rcases Finset.mem_insert.mp hd with rfl | hd
    · exact hc
    · exact owned_of_userRef hd
  | release c =>
    left
    obtain ⟨-, rfl⟩ := ite_eq_ok.mp hok
    apply frame_setUserRefs
    intro d hd
    exact owned_of_userRef (Finset.mem_of_mem_erase hd)
  | send inLoop c message datalen =>
    left
    rw [step] at hok
    split at hok
    · split at hok
      · exact frame_sendInLoop hok
      · obtain ⟨-, rfl⟩ := ite_eq_ok.mp hok
        exact frame_queueInLoop rfl
    · cases hok
  | shutdown inLoop c =>
    left
    rw [step] at hok
    split at hok
    · exact frame_shutdownInLoop hok
    · obtain ⟨-, rfl⟩ := ite_eq_ok.mp hok
      exact frame_queueInLoop rfl
  | setMemory address value =>
    left
    obtain rfl := Except.ok.inj hok
    exact frame_setMemory s _

/-- Every step keeps the invariant. -/
theorem Sound.step (h : s.Sound) {action : ServerAction ι} (hok : s.step action = .ok s') :
    s'.Sound := by
  rcases step_cases hok with hframe | ⟨sockfd, ioLoop, -, -, hfd, rfl⟩ | ⟨c, hc, hbusy, rfl⟩ |
    ⟨c, n, hremoving, rfl⟩ | ⟨l, called, f, rest, hphase, hbusy, hcall⟩
  · exact h.frame hframe
  · exact h.onConnection hfd ioLoop
  · exact h.handleClose hc hbusy
  · exact h.queueRemoval hremoving
  · exact h.call hphase hbusy hcall

end

/-- A server that has accepted no connection. -/
def started (name : String) (base : ι) (memory : ℕ → Option UInt8) : Server ι :=
  { name, base, memory }

/-- A server that has been started owns no connection. -/
theorem not_owned_started (name : String) (base : ι) (memory : ℕ → Option UInt8)
    (c : Connection ι) : ¬ (started name base memory).Owned c := by
  intro howned
  rcases owned_iff.mp howned with ⟨key, hkey⟩ | ⟨n, hn⟩ | huser | ⟨l, f, hf, -⟩
  · cases hkey
  · cases hn
  · exact absurd huser (Finset.notMem_empty c)
  · cases hf

/-- A server that has been started is sound. -/
theorem sound_started (name : String) (base : ι) (memory : ℕ → Option UInt8) :
    (started name base memory).Sound where
  key_eq key c hkey := by cases hkey
  id_lt c hc := absurd hc (not_owned_started name base memory c)
  eq_of_sockfd_eq c _ hc := absurd hc (not_owned_started name base memory c)
  registered l fd c hlookup := by cases hlookup
  establishing l c hqueued := by cases hqueued
  once l c := Nat.zero_le _
  removal_base l c hqueued := by cases hqueued

/-- The connection is referred to by `connections_` or by a functor that is queued or
running. -/
def Referenced (s : Server ι) (conn : Connection ι) : Prop :=
  s.InMap conn ∨ s.Removing conn ∨ ∃ l f, s.Queued l f ∧ f.owner = some conn

/-- A registered channel belongs to a connection that is referred to and that has not been
destroyed. -/
def ChannelsOwned (s : Server ι) : Prop :=
  ∀ l fd conn, (s.loops l).channelMap.lookup fd = some conn → s.Referenced conn ∧ s.Owned conn

/-- In a sound state the registered channels have their connections. -/
theorem Sound.channelsOwned {s : Server ι} (h : s.Sound) : s.ChannelsOwned := by
  intro l fd conn hlookup
  have hkept := (h.registered l fd conn hlookup).2.2
  refine ⟨?_, hkept.owned⟩
  rcases hkept with hmap | hremoving | hqueued
  · exact .inl hmap
  · exact .inr (.inl hremoving)
  · exact .inr (.inr ⟨_, _, hqueued, rfl⟩)

/-- In every interleaving a connection whose channel is registered is referred to, and no
connection is destroyed while its channel is in the poller's map. -/
theorem channels_owned (name : String) (base : ι) (memory : ℕ → Option UInt8)
    (actions : List (ServerAction ι)) :
    Always step ChannelsOwned (started name base memory) actions := by
  apply along_of_guarded Sound ?_ ?_ (sound_started name base memory) guarded_true
  · intro s action h _ s' hok
    exact (h.step hok).channelsOwned
  · intro s action s' h _ hok
    exact h.step hok

/-- `OnConnection` finds no entry under its key, and `removeConnection` erases no entry of
another connection. -/
def NamesUnique (s : Server ι) (action : ServerAction ι) (r : Except ServerFault (Server ι)) :
    Prop :=
  ∀ s', r = .ok s' →
    (∀ sockfd ioLoop, action = .onConnection sockfd ioLoop → s.nameOf sockfd ∉ s.connections) ∧
    ∀ conn n, s.removing = none → s'.removing = some (conn, n) →
      ∀ key d, d ≠ conn → s.connections.lookup key = some d → s'.connections.lookup key = some d

section

variable {s s' : Server ι} {c d : Connection ι}

omit [Fintype ι] in
/-- Accepting removes nothing. -/
theorem removing_onConnection (s : Server ι) (sockfd : ℕ) (ioLoop : ι) :
    (s.onConnection sockfd ioLoop).removing = s.removing := by
  unfold onConnection
  dsimp only
  split
  · rfl
  · rfl

/-- The call of a functor that starts a removal erases at most the entry of its
connection. -/
theorem Sound.call_keeps_others {l : ι} {called rest : List (LoopFunctor ι)} {f : LoopFunctor ι}
    (h : s.Sound) (hphase : (s.loops l).phase = .functors called (f :: rest))
    (hok : (s.popped l called f rest).call f = .ok s') (hnone : s.removing = none) {n : ℕ}
    (hremoving : s'.removing = some (c, n)) (hne : d ≠ c) {key : String}
    (hkey : s.connections.lookup key = some d) : s'.connections.lookup key = some d := by
  cases f with
  | connectEstablished c' =>
    obtain rfl := Except.ok.inj hok
    exact absurd (hremoving.symm.trans hnone) (by simp)
  | removeConnection c' =>
    obtain rfl := Except.ok.inj hok
    obtain ⟨rfl, -⟩ := Prod.mk.inj (Option.some.inj hremoving)
    have hpopped := h.popped hphase (by simp)
    exact hpopped.lookup_removeConnection_of_ne (owned_popped_self rfl) hne hkey
  | removeConnectionInPoller c' =>
    obtain ⟨-, rfl⟩ := ite_eq_ok.mp hok
    exact absurd (hremoving.symm.trans hnone) (by simp)
  | sendInLoop c' message datalen sent =>
    have hsame := (frame_sendInLoop hok).removing_eq
    exact absurd ((hremoving.symm.trans hsame).trans hnone) (by simp)
  | shutdownInLoop c' =>
    have hsame := (frame_shutdownInLoop hok).removing_eq
    exact absurd ((hremoving.symm.trans hsame).trans hnone) (by simp)

/-- A step that runs `removeConnection` up to the `assert` erases at most the entry of its
connection. -/
theorem Sound.keeps_others (h : s.Sound) {action : ServerAction ι}
    (hok : s.step action = .ok s') (hnone : s.removing = none) {n : ℕ}
    (hremoving : s'.removing = some (c, n)) (hne : d ≠ c) {key : String}
    (hkey : s.connections.lookup key = some d) : s'.connections.lookup key = some d := by
  rcases step_cases hok with hframe | ⟨sockfd, ioLoop, -, -, -, rfl⟩ | ⟨c', hc', -, rfl⟩ |
    ⟨c', n', hbefore, -⟩ | ⟨l, called, f, rest, hphase, -, hcall⟩
  · exact absurd ((hremoving.symm.trans hframe.removing_eq).trans hnone) (by simp)
  · rw [removing_onConnection] at hremoving
    exact absurd (hremoving.symm.trans hnone) (by simp)
  · unfold Server.handleClose closeConnection at hremoving ⊢
    split at hremoving
    · next hbase =>
      rw [if_pos hbase]
      obtain ⟨rfl, -⟩ := Prod.mk.inj (Option.some.inj hremoving)
      exact h.lookup_removeConnection_of_ne (h.kept hc').owned hne hkey
    · exact absurd (hremoving.symm.trans hnone) (by simp)
  · exact absurd (hbefore.symm.trans hnone) (by simp)
  · exact h.call_keeps_others hphase hcall hnone hremoving hne hkey

end

/-- In every interleaving the names of the connections are unique. -/
theorem names_unique (name : String) (base : ι) (memory : ℕ → Option UInt8)
    (actions : List (ServerAction ι)) :
    Along step NamesUnique (started name base memory) actions := by
  apply along_of_guarded Sound ?_ ?_ (sound_started name base memory) guarded_true
  · intro s action h _ s' hok
    constructor
    · rintro sockfd ioLoop rfl
      rw [step] at hok
      split at hok
      · obtain ⟨⟨-, hfd⟩, -⟩ := ite_eq_ok.mp hok
        exact Finmap.lookup_eq_none.mp (h.lookup_eq_none hfd)
      · cases hok
    · intro conn n hnone hremoving key d hne hkey
      exact h.keeps_others hok hnone hremoving hne hkey
  · intro s action s' h _ hok
    exact h.step hok

end Server

end Reactor
