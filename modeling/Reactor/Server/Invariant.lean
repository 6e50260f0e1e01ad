import Reactor.Server.Queues

/-!
# The invariant of the server

The invariant of the server ties the entries of `connections_`, the functors that are
still to be called, the connection that is being removed and the channels in the pollers
together. A connection that has not been established is in the map and nothing removes
it; a registered one is in the map, or on its way to the functor that unregisters it.
-/

namespace Reactor

open Transition

namespace Server

variable {ι : Type*} [DecidableEq ι] [Fintype ι]

/-- The invariant of the server. -/
structure Sound (s : Server ι) : Prop where
  key_eq : ∀ key conn, s.connections.lookup key = some conn → key = s.nameOf conn.sockfd
  id_lt : ∀ conn, s.Owned conn → conn.id < s.nextId
  eq_of_sockfd_eq : ∀ c d, s.Owned c → s.Owned d → c.sockfd = d.sockfd → c = d
  registered : ∀ l fd conn, (s.loops l).channelMap.lookup fd = some conn →
    l = conn.ioLoop ∧ fd = conn.sockfd ∧ s.Kept conn
  establishing : ∀ l conn, s.Queued l (.connectEstablished conn) → l = conn.ioLoop ∧ s.New conn
  once : ∀ l conn, (s.loops l).unexecuted.count (.connectEstablished conn) ≤ 1
  removal_base : ∀ l conn, s.Queued l (.removeConnection conn) → l = s.base

section

variable {s s' : Server ι} {c d : Connection ι} {l : ι} {f : LoopFunctor ι}

/-- A queued functor owns its connection. -/
theorem owned_of_queued (hf : s.Queued l f) (hc : f.owner = some c) : s.Owned c := by
  apply owned_iff.mpr
  right; right; right
  exact ⟨l, f, ServerLoop.mem_held_of_mem_unexecuted hf, hc⟩

/-- A kept connection is owned. -/
theorem Kept.owned (h : s.Kept c) : s.Owned c := by
  rcases h with hmap | hremoving | hqueued
  · exact owned_of_inMap hmap
  · exact owned_of_removing hremoving
  · exact owned_of_queued hqueued rfl

/-- A registered connection is kept. -/
theorem Sound.kept (h : s.Sound) (hc : s.Registered c) : s.Kept c :=
  (h.registered _ _ _ hc).2.2

/-- The entry under the name of a connection that exists is its own. -/
theorem Sound.eq_of_lookup (h : s.Sound) (hc : s.Owned c)
    (hd : s.connections.lookup (s.nameOf c.sockfd) = some d) : d = c := by
  have hkey := nameOf_inj (h.key_eq _ _ hd)
  have howned : s.Owned d := owned_of_inMap ⟨_, hd⟩
  exact h.eq_of_sockfd_eq d c howned hc hkey.symm

/-! ## Steps that leave the structure alone -/

/-- Two states that differ in what user code and the functors without a `shared_ptr` do. -/
structure Frame (s s' : Server ι) : Prop where
  name_eq : s'.name = s.name
  base_eq : s'.base = s.base
  connections_eq : s'.connections = s.connections
  removing_eq : s'.removing = s.removing
  nextId_eq : s'.nextId = s.nextId
  channelMap_eq : ∀ l, (s'.loops l).channelMap = (s.loops l).channelMap
  count_eq : ∀ l f, f.owner ≠ none →
    (s'.loops l).unexecuted.count f = (s.loops l).unexecuted.count f
  owned : ∀ c, s'.Owned c → s.Owned c

/-- A frame neither queues nor drops a functor with an owner. -/
theorem Frame.queued_iff (h : s.Frame s') (hf : f.owner ≠ none) :
    s'.Queued l f ↔ s.Queued l f := by
  unfold Queued
  rw [← List.count_pos_iff, ← List.count_pos_iff, h.count_eq l f hf]

/-- A frame leaves the map of connections. -/
theorem Frame.inMap_iff (h : s.Frame s') : s'.InMap c ↔ s.InMap c := by
  unfold InMap
  rw [h.connections_eq]

/-- A frame leaves the removals. -/
theorem Frame.removing_iff (h : s.Frame s') : s'.Removing c ↔ s.Removing c := by
  unfold Removing
  rw [h.removing_eq]

/-- A frame leaves the registered channels. -/
theorem Frame.registered_iff (h : s.Frame s') : s'.Registered c ↔ s.Registered c := by
  unfold Registered
  rw [h.channelMap_eq]

/-- A frame keeps the same connections. -/
theorem Frame.kept_iff (h : s.Frame s') : s'.Kept c ↔ s.Kept c := by
  unfold Kept
  rw [h.inMap_iff, h.removing_iff, h.queued_iff (by simp [LoopFunctor.owner])]

/-- A connection that is new stays new in a frame. -/
theorem Frame.new (h : s.Frame s') (hc : s.New c) : s'.New c where
  inMap := h.inMap_iff.mpr hc.inMap
  not_registered := h.registered_iff.not.mpr hc.not_registered
  not_removing := h.removing_iff.not.mpr hc.not_removing
  not_removed l := (h.queued_iff (by simp [LoopFunctor.owner])).not.mpr (hc.not_removed l)
  not_unregistered l := (h.queued_iff (by simp [LoopFunctor.owner])).not.mpr (hc.not_unregistered l)

/-- Soundness is kept by frames. -/
theorem Sound.frame (h : s.Sound) (hframe : s.Frame s') : s'.Sound where
  key_eq key conn hkey := by
    rw [hframe.connections_eq] at hkey
    rw [nameOf, hframe.name_eq]
    exact h.key_eq key conn hkey
  id_lt conn hconn := by
    rw [hframe.nextId_eq]
    exact h.id_lt conn (hframe.owned conn hconn)
  eq_of_sockfd_eq c d hc hd := h.eq_of_sockfd_eq c d (hframe.owned c hc) (hframe.owned d hd)
  registered l fd conn hlookup := by
    rw [hframe.channelMap_eq] at hlookup
    obtain ⟨hl, hfd, hkept⟩ := h.registered l fd conn hlookup
    exact ⟨hl, hfd, hframe.kept_iff.mpr hkept⟩
  establishing l conn hqueued := by
    obtain ⟨hl, hnew⟩ := h.establishing l conn
      ((hframe.queued_iff (by simp [LoopFunctor.owner])).mp hqueued)
    exact ⟨hl, hframe.new hnew⟩
  once l conn := by
    rw [hframe.count_eq l _ (by simp [LoopFunctor.owner])]
    exact h.once l conn
  removal_base l conn hqueued := by
    rw [hframe.base_eq]
    exact h.removal_base l conn ((hframe.queued_iff (by simp [LoopFunctor.owner])).mp hqueued)

/-- Frames can be put together. -/
theorem Frame.trans {s'' : Server ι} (h : s.Frame s') (h' : s'.Frame s'') : s.Frame s'' where
  name_eq := h'.name_eq.trans h.name_eq
  base_eq := h'.base_eq.trans h.base_eq
  connections_eq := h'.connections_eq.trans h.connections_eq
  removing_eq := h'.removing_eq.trans h.removing_eq
  nextId_eq := h'.nextId_eq.trans h.nextId_eq
  channelMap_eq l := (h'.channelMap_eq l).trans (h.channelMap_eq l)
  count_eq l f hf := (h'.count_eq l f hf).trans (h.count_eq l f hf)
  owned c hc := h.owned c (h'.owned c hc)

/-- The changed loop brings no reference of its own. -/
theorem owned_of_setLoop {loop : ServerLoop ι}
    (hheld : ∀ f ∈ loop.held, ∀ c, f.owner = some c → s.Owned c) (hc : (s.setLoop l loop).Owned c) :
    s.Owned c := by
  rcases owned_iff.mp hc with hmap | hremoving | huser | ⟨l', f, hf, hown⟩
  · exact owned_of_inMap hmap
  · exact owned_of_removing hremoving
  · exact owned_of_userRef huser
  · rw [loops_setLoop] at hf
    split at hf
    · exact hheld f hf c hown
    · exact owned_of_held hf hown

/-- A loop that keeps its channels and the owners that it holds is a frame. -/
theorem frame_setLoop {loop : ServerLoop ι} (hmap : loop.channelMap = (s.loops l).channelMap)
    (hcount : ∀ f : LoopFunctor ι, f.owner ≠ none →
      loop.unexecuted.count f = (s.loops l).unexecuted.count f)
    (hheld : ∀ f ∈ loop.held, ∀ c, f.owner = some c → s.Owned c) : s.Frame (s.setLoop l loop) where
  name_eq := rfl
  base_eq := rfl
  connections_eq := rfl
  removing_eq := rfl
  nextId_eq := rfl
  channelMap_eq l' := by
    rw [loops_setLoop]
    split
    · next heq =>
      rw [hmap, heq]
    · rfl
  count_eq l' f hf := by
    rw [loops_setLoop]
    split
    · next heq =>
      rw [hcount f hf, heq]
    · rfl
  owned c hc := owned_of_setLoop hheld hc

/-- What a connection contains is no part of the structure. -/
theorem frame_setData (s : Server ι) (c : Connection ι) (data : ConnectionData) :
    s.Frame (s.setData c data) :=
  ⟨rfl, rfl, rfl, rfl, rfl, fun _ => rfl, fun _ _ _ => rfl, fun _ hc => hc⟩

/-- The memory is a frame. -/
theorem frame_setMemory (s : Server ι) (memory : ℕ → Option UInt8) : s.Frame { s with memory } :=
  ⟨rfl, rfl, rfl, rfl, rfl, fun _ => rfl, fun _ _ _ => rfl, fun _ hc => hc⟩

/-- User code keeps references to connections that exist. -/
theorem frame_setUserRefs {userRefs : Finset (Connection ι)} (h : ∀ c ∈ userRefs, s.Owned c) :
    s.Frame { s with userRefs } := by
  refine ⟨rfl, rfl, rfl, rfl, rfl, fun _ => rfl, fun _ _ _ => rfl, ?_⟩
  intro c hc
  rcases owned_iff.mp hc with hmap | hremoving | huser | ⟨l', f, hf, hown⟩
  · exact owned_of_inMap hmap
  · exact owned_of_removing hremoving
  · exact h c huser
  · exact owned_of_held hf hown

/-- A swap of the queue is a frame. -/
theorem frame_swap (hphase : (s.loops l).phase = .handlers) :
    s.Frame (s.setLoop l { s.loops l with
      phase := .functors [] (s.loops l).pendingFunctors
      pendingFunctors := [] }) := by
  apply frame_setLoop
  · rfl
  · intro f _
    simp [ServerLoop.unexecuted, hphase]
  · intro f hf c hc
    apply owned_of_held ?_ hc
    · exact l
    · simpa [ServerLoop.held, hphase] using hf

/-- The end of the batch is a frame. -/
theorem frame_endBatch {called : List (LoopFunctor ι)}
    (hphase : (s.loops l).phase = .functors called []) :
    s.Frame (s.setLoop l { s.loops l with phase := .handlers }) := by
  apply frame_setLoop
  · rfl
  · intro f _
    simp [ServerLoop.unexecuted, hphase]
  · intro f hf c hc
    have hmem : f ∈ (s.loops l).pendingFunctors := hf
    apply owned_of_held ?_ hc
    · exact l
    · simp [ServerLoop.held, hphase, hmem]

/-- Queueing a functor creates no connection if its owner exists. -/
theorem owned_of_queueInLoop (hf : ∀ c, f.owner = some c → s.Owned c)
    (hc : (s.queueInLoop l f).Owned c) : s.Owned c := by
  apply owned_of_setLoop ?_ hc
  intro g hg d hd
  rcases mem_held_queueInLoop hg with hheld | rfl
  · exact owned_of_held hheld hd
  · exact hf d hd

/-- A functor without a `shared_ptr` is queued. -/
theorem frame_queueInLoop (hf : f.owner = none) : s.Frame (s.queueInLoop l f) := by
  refine ⟨rfl, rfl, rfl, rfl, rfl, ?_, ?_, ?_⟩
  · intro l'
    unfold queueInLoop
    rw [loops_setLoop]
    split
    · next heq => rw [heq]
    · rfl
  · intro l' g hg
    rw [unexecuted_queueInLoop]
    split
    · next heq =>
      have hne : f ≠ g := by
        rintro rfl
        exact hg hf
      rw [heq, List.count_append, List.count_singleton, if_neg (by simpa using hne)]
      omega
    · rfl
  · intro c hc
    apply owned_of_queueInLoop ?_ hc
    intro d hd
    rw [hf] at hd
    cases hd

/-! ## The next functor of a batch -/

section

variable {called rest : List (LoopFunctor ι)}

/-- The batch keeps the functor while it runs. -/
theorem owned_of_popped (hphase : (s.loops l).phase = .functors called (f :: rest))
    (hc : (s.popped l called f rest).Owned c) : s.Owned c := by
  apply owned_of_setLoop ?_ hc
  intro g hg d hd
  apply owned_of_held ?_ hd
  · exact l
  · simpa [ServerLoop.held, hphase] using hg

/-- A functor without a `shared_ptr` is called. -/
theorem frame_popped (hphase : (s.loops l).phase = .functors called (f :: rest))
    (hf : f.owner = none) : s.Frame (s.popped l called f rest) := by
  refine ⟨rfl, rfl, rfl, rfl, rfl, channelMap_popped, ?_, fun _ => owned_of_popped hphase⟩
  intro l' g hg
  apply count_popped hphase
  rintro rfl
  exact hg hf

/-- The invariant does not need the functor that is called, unless it unregisters a
channel. -/
theorem Sound.popped (h : s.Sound) (hphase : (s.loops l).phase = .functors called (f :: rest))
    (hf : ∀ c, f ≠ .removeConnectionInPoller c) : (s.popped l called f rest).Sound where
  key_eq := h.key_eq
  id_lt c hc := h.id_lt c (owned_of_popped hphase hc)
  eq_of_sockfd_eq c d hc hd :=
    h.eq_of_sockfd_eq c d (owned_of_popped hphase hc) (owned_of_popped hphase hd)
  registered l' fd c hlookup := by
    rw [channelMap_popped] at hlookup
    obtain ⟨hl, hfd, hkept⟩ := h.registered l' fd c hlookup
    refine ⟨hl, hfd, ?_⟩
    rcases hkept with hmap | hremoving | hqueued
    · exact .inl hmap
    · exact .inr (.inl hremoving)
    · exact .inr (.inr (queued_popped hphase hqueued (hf c).symm))
  establishing l' c hqueued := by
    obtain ⟨hl, hnew⟩ := h.establishing l' c (queued_of_popped hphase hqueued)
    exact ⟨hl, hnew.popped hphase⟩
  once l' c := by
    have hle := count_popped_le hphase l' (.connectEstablished c)
    have honce := h.once l' c
    omega
  removal_base l' c hqueued := h.removal_base l' c (queued_of_popped hphase hqueued)

end

/-! ## Establishing a connection -/

/-- Establishing a connection creates none. -/
theorem owned_of_connectEstablished (hd : (s.connectEstablished c).Owned d) : s.Owned d := by
  unfold Server.connectEstablished at hd
  have hloop := (frame_setData _ c _).owned d hd
  apply owned_of_setLoop ?_ hloop
  intro f hf d' hown
  exact owned_of_held (l := c.ioLoop) hf hown

/-- A connection in the map is established. -/
theorem Sound.connectEstablished (h : s.Sound) (hmap : s.InMap c)
    (hdone : ∀ l, ¬ s.Queued l (.connectEstablished c)) : (s.connectEstablished c).Sound where
  key_eq := h.key_eq
  id_lt d hd := h.id_lt d (owned_of_connectEstablished hd)
  eq_of_sockfd_eq d d' hd hd' :=
    h.eq_of_sockfd_eq d d' (owned_of_connectEstablished hd) (owned_of_connectEstablished hd')
  registered l fd d hlookup := by
    rcases lookup_connectEstablished hlookup with hbefore | ⟨rfl, rfl, rfl⟩
    · obtain ⟨hl, hfd, hkept⟩ := h.registered l fd d hbefore
      refine ⟨hl, hfd, ?_⟩
      unfold Kept at hkept ⊢
      rwa [queued_connectEstablished]
    · exact ⟨rfl, rfl, .inl hmap⟩
  establishing l d hqueued := by
    rw [queued_connectEstablished] at hqueued
    obtain ⟨hl, hnew⟩ := h.establishing l d hqueued
    refine ⟨hl, hnew.inMap, ?_, hnew.not_removing, ?_, ?_⟩
    · intro hregistered
      rcases lookup_connectEstablished hregistered with hbefore | ⟨-, -, rfl⟩
      · exact hnew.not_registered hbefore
      · exact hdone l hqueued
    · intro l'
      rw [queued_connectEstablished]
      exact hnew.not_removed l'
    · intro l'
      rw [queued_connectEstablished]
      exact hnew.not_unregistered l'
  once l d := by
    rw [unexecuted_connectEstablished]
    exact h.once l d
  removal_base l d hqueued := h.removal_base l d (queued_connectEstablished.mp hqueued)

end

end Server

end Reactor
