import Reactor.Server.Invariant

/-!
# Removing a connection

`removeConnection` takes the connection out of the map in the base loop and hands it to
the functor that unregisters its channel in its own loop. Each hop keeps the invariant:
the next reference exists before the last one is given up.
-/

namespace Reactor

open Transition

namespace Server

variable {ι : Type*} [DecidableEq ι] [Fintype ι]

section

variable {s s' : Server ι} {c d : Connection ι} {l : ι} {f : LoopFunctor ι}

/-! ## Removing a connection -/

omit [DecidableEq ι] [Fintype ι] in
/-- The entries that the erase leaves. -/
theorem lookup_removeConnection {key : String}
    (h : (s.removeConnection c).connections.lookup key = some d) :
    key ≠ s.nameOf c.sockfd ∧ s.connections.lookup key = some d := by
  by_cases heq : key = s.nameOf c.sockfd
  · subst heq
    have hnone : (s.connections.erase (s.nameOf c.sockfd)).lookup (s.nameOf c.sockfd) = none :=
      Finmap.lookup_erase ..
    exact absurd (hnone.symm.trans h) (by simp)
  · exact ⟨heq, (Finmap.lookup_erase_ne heq).symm.trans h⟩

/-- The erase leaves the entries of the other connections. -/
theorem Sound.lookup_removeConnection_of_ne (h : s.Sound) (hc : s.Owned c) (hne : d ≠ c)
    {key : String} (hkey : s.connections.lookup key = some d) :
    (s.removeConnection c).connections.lookup key = some d := by
  have hname : key ≠ s.nameOf c.sockfd := by
    rintro rfl
    exact hne (h.eq_of_lookup hc hkey)
  exact (Finmap.lookup_erase_ne hname).trans hkey

/-- Removing a connection leaves the others in the map. -/
theorem Sound.inMap_removeConnection (h : s.Sound) (hc : s.Owned c) (hne : d ≠ c)
    (hmap : s.InMap d) : (s.removeConnection c).InMap d := by
  obtain ⟨key, hkey⟩ := hmap
  exact ⟨key, h.lookup_removeConnection_of_ne hc hne hkey⟩

/-- Removing a connection creates none. -/
theorem owned_of_removeConnection (hc : s.Owned c) (hd : (s.removeConnection c).Owned d) :
    s.Owned d := by
  rcases owned_iff.mp hd with ⟨key, hkey⟩ | ⟨n, hn⟩ | huser | ⟨l', f, hf, hown⟩
  · exact owned_of_inMap ⟨key, (lookup_removeConnection hkey).2⟩
  · obtain ⟨rfl, -⟩ := Prod.mk.inj (Option.some.inj hn)
    exact hc
  · exact owned_of_userRef huser
  · exact owned_of_held hf hown

/-- `removeConnection` erases the entry of its connection, if there is one, and keeps the
connection itself. -/
theorem Sound.removeConnection (h : s.Sound) (hc : s.Owned c) (hnone : s.removing = none)
    (hdone : ∀ l, ¬ s.Queued l (.connectEstablished c)) : (s.removeConnection c).Sound where
  key_eq key d hkey := h.key_eq key d (lookup_removeConnection hkey).2
  id_lt d hd := h.id_lt d (owned_of_removeConnection hc hd)
  eq_of_sockfd_eq d d' hd hd' :=
    h.eq_of_sockfd_eq d d' (owned_of_removeConnection hc hd) (owned_of_removeConnection hc hd')
  registered l fd d hlookup := by
    obtain ⟨hl, hfd, hkept⟩ := h.registered l fd d hlookup
    refine ⟨hl, hfd, ?_⟩
    by_cases heq : d = c
    · subst heq
      exact .inr (.inl ⟨_, rfl⟩)
    · rcases hkept with hmap | ⟨n, hn⟩ | hqueued
      · exact .inl (h.inMap_removeConnection hc heq hmap)
      · rw [hnone] at hn
        cases hn
      · exact .inr (.inr hqueued)
  establishing l d hqueued := by
    obtain ⟨hl, hnew⟩ := h.establishing l d hqueued
    have hne : d ≠ c := by
      rintro rfl
      exact hdone l hqueued
    refine ⟨hl, h.inMap_removeConnection hc hne hnew.inMap, hnew.not_registered, ?_,
      hnew.not_removed, hnew.not_unregistered⟩
    rintro ⟨n, hn⟩
    exact hne (Prod.mk.inj (Option.some.inj hn)).1.symm
  once := h.once
  removal_base := h.removal_base

omit [Fintype ι] in
/-- A functor is queued besides those that are. -/
theorem queued_queueInLoop_iff {l' : ι} {g : LoopFunctor ι} :
    (s.queueInLoop l f).Queued l' g ↔ s.Queued l' g ∨ l' = l ∧ g = f := by
  unfold Queued
  rw [unexecuted_queueInLoop]
  by_cases heq : l' = l
  · subst heq
    simp
  · simp [heq]

omit [Fintype ι] in
/-- Queueing a functor registers no channel. -/
theorem channelMap_queueInLoop (s : Server ι) (l : ι) (f : LoopFunctor ι) (l' : ι) :
    ((s.queueInLoop l f).loops l').channelMap = (s.loops l').channelMap := by
  unfold queueInLoop
  rw [loops_setLoop]
  split
  · next heq => rw [heq]
  · rfl

omit [Fintype ι] in
/-- Other functors are queued as often as before. -/
theorem count_queueInLoop (s : Server ι) (l : ι) (f : LoopFunctor ι) (l' : ι) {g : LoopFunctor ι}
    (hne : g ≠ f) :
    ((s.queueInLoop l f).loops l').unexecuted.count g = (s.loops l').unexecuted.count g := by
  rw [unexecuted_queueInLoop]
  split
  · next heq =>
    rw [heq, List.count_append, List.count_singleton, if_neg (by simpa using hne.symm)]
    omega
  · rfl

/-- A functor that removes an established connection is queued. -/
theorem Sound.queueInLoop (h : s.Sound) (hf : ∀ c, f.owner = some c → s.Owned c ∧ ¬ s.New c)
    (hnot : ∀ c, f ≠ .connectEstablished c) (hbase : ∀ c, f = .removeConnection c → l = s.base) :
    (s.queueInLoop l f).Sound where
  key_eq := h.key_eq
  id_lt c hc := h.id_lt c (owned_of_queueInLoop (fun d hd => (hf d hd).1) hc)
  eq_of_sockfd_eq c d hc hd := h.eq_of_sockfd_eq c d
    (owned_of_queueInLoop (fun d hd => (hf d hd).1) hc)
    (owned_of_queueInLoop (fun d hd => (hf d hd).1) hd)
  registered l' fd c hlookup := by
    rw [channelMap_queueInLoop] at hlookup
    obtain ⟨hl, hfd, hkept⟩ := h.registered l' fd c hlookup
    refine ⟨hl, hfd, ?_⟩
    rcases hkept with hmap | hremoving | hqueued
    · exact .inl hmap
    · exact .inr (.inl hremoving)
    · exact .inr (.inr (queued_queueInLoop_iff.mpr (.inl hqueued)))
  establishing l' c hqueued := by
    rcases queued_queueInLoop_iff.mp hqueued with hbefore | ⟨-, heq⟩
    swap
    · exact absurd heq.symm (hnot c)
    obtain ⟨hl, hnew⟩ := h.establishing l' c hbefore
    refine ⟨hl, hnew.inMap, ?_, hnew.not_removing, ?_, ?_⟩
    · unfold Registered
      rw [channelMap_queueInLoop]
      exact hnew.not_registered
    · intro l'' hqueued'
      rcases queued_queueInLoop_iff.mp hqueued' with hbefore' | ⟨-, rfl⟩
      · exact hnew.not_removed l'' hbefore'
      · exact (hf c rfl).2 hnew
    · intro l'' hqueued'
      rcases queued_queueInLoop_iff.mp hqueued' with hbefore' | ⟨-, rfl⟩
      · exact hnew.not_unregistered l'' hbefore'
      · exact (hf c rfl).2 hnew
  once l' c := by
    rw [count_queueInLoop _ _ _ _ (hnot c).symm]
    exact h.once l' c
  removal_base l' c hqueued := by
    rcases queued_queueInLoop_iff.mp hqueued with hbefore | ⟨rfl, heq⟩
    · exact h.removal_base l' c hbefore
    · exact hbase c heq.symm

/-- The functor that unregisters the channel takes the connection over. -/
theorem Sound.handOver (h : s.Sound) {n : ℕ} (hremoving : s.removing = some (c, n))
    (hqueued : s.Queued c.ioLoop (.removeConnectionInPoller c)) :
    Sound { s with removing := none } := by
  have howned : ∀ d, Owned { s with removing := none } d → s.Owned d := by
    intro d hd
    rcases owned_iff.mp hd with hmap | ⟨n', hn'⟩ | huser | ⟨l', f, hf, hown⟩
    · exact owned_of_inMap hmap
    · cases hn'
    · exact owned_of_userRef huser
    · exact owned_of_held hf hown
  refine ⟨h.key_eq, fun d hd => h.id_lt d (howned d hd),
    fun d d' hd hd' => h.eq_of_sockfd_eq d d' (howned d hd) (howned d' hd'), ?_, ?_, h.once,
    h.removal_base⟩
  · intro l fd d hlookup
    obtain ⟨hl, hfd, hkept⟩ := h.registered l fd d hlookup
    refine ⟨hl, hfd, ?_⟩
    rcases hkept with hmap | ⟨n', hn'⟩ | hbefore
    · exact .inl hmap
    · rw [hremoving] at hn'
      obtain ⟨rfl, -⟩ := Prod.mk.inj (Option.some.inj hn')
      exact .inr (.inr hqueued)
    · exact .inr (.inr hbefore)
  · intro l d hestablish
    obtain ⟨hl, hnew⟩ := h.establishing l d hestablish
    refine ⟨hl, hnew.inMap, hnew.not_registered, ?_, hnew.not_removed, hnew.not_unregistered⟩
    rintro ⟨n', hn'⟩
    cases hn'

/-- The rest of `removeConnection`. -/
theorem Sound.queueRemoval (h : s.Sound) {n : ℕ} (hremoving : s.removing = some (c, n)) :
    ({ s with removing := none }.queueInLoop c.ioLoop (.removeConnectionInPoller c)).Sound := by
  have hsound : (s.queueInLoop c.ioLoop (.removeConnectionInPoller c)).Sound := by
    apply h.queueInLoop
    · intro d hd
      obtain rfl := Option.some.inj hd
      exact ⟨owned_of_removing ⟨n, hremoving⟩, fun hnew => hnew.not_removing ⟨n, hremoving⟩⟩
    · simp
    · simp
  exact hsound.handOver hremoving (queued_queueInLoop_iff.mpr (.inr ⟨rfl, rfl⟩))

/-! ## Unregistering a channel -/

/-- The state behind `removeConnectionInPoller`. -/
def unregistered (s : Server ι) (c : Connection ι) : Server ι :=
  s.setLoop c.ioLoop { s.loops c.ioLoop with
    channelMap := (s.loops c.ioLoop).channelMap.erase c.sockfd }

omit [Fintype ι] in
/-- The entries that the erase leaves in the poller's map. -/
theorem lookup_unregistered {fd : ℕ}
    (h : ((s.unregistered c).loops l).channelMap.lookup fd = some d) :
    (s.loops l).channelMap.lookup fd = some d ∧ ¬ (l = c.ioLoop ∧ fd = c.sockfd) := by
  unfold unregistered at h
  rw [loops_setLoop] at h
  split at h
  · next heq =>
    subst heq
    by_cases hfd : fd = c.sockfd
    · subst hfd
      have hnone : ((s.loops c.ioLoop).channelMap.erase c.sockfd).lookup c.sockfd = none :=
        Finmap.lookup_erase ..
      exact absurd (hnone.symm.trans h) (by simp)
    · exact ⟨(Finmap.lookup_erase_ne hfd).symm.trans h, fun hand => hfd hand.2⟩
  · next hne => exact ⟨h, fun hand => hne hand.1⟩

omit [Fintype ι] in
/-- Unregistering a connection queues nothing. -/
theorem unexecuted_unregistered (s : Server ι) (c : Connection ι) (l : ι) :
    ((s.unregistered c).loops l).unexecuted = (s.loops l).unexecuted := by
  unfold unregistered
  rw [loops_setLoop]
  split
  · next heq =>
    rw [heq]
    rfl
  · rfl

omit [Fintype ι] in
/-- Unregistering a connection leaves what is queued. -/
@[simp] theorem queued_unregistered : (s.unregistered c).Queued l f ↔ s.Queued l f := by
  unfold Queued
  rw [unexecuted_unregistered]

/-- Unregistering a connection creates none. -/
theorem owned_of_unregistered (hd : (s.unregistered c).Owned d) : s.Owned d := by
  apply owned_of_setLoop ?_ hd
  intro f hf d' hown
  exact owned_of_held (l := c.ioLoop) hf hown

omit [Fintype ι] in
/-- A new connection stays new while another one is unregistered. -/
theorem New.unregistered (h : s.New d) (c : Connection ι) : (s.unregistered c).New d where
  inMap := h.inMap
  not_registered hregistered := h.not_registered (lookup_unregistered hregistered).1
  not_removing := h.not_removing
  not_removed l := queued_unregistered.not.mpr (h.not_removed l)
  not_unregistered l := queued_unregistered.not.mpr (h.not_unregistered l)

/-- The last functor of a connection unregisters its channel. -/
theorem Sound.unregistered {called rest : List (LoopFunctor ι)} (h : s.Sound)
    (hphase : (s.loops l).phase = .functors called (.removeConnectionInPoller c :: rest)) :
    ((s.popped l called (.removeConnectionInPoller c) rest).unregistered c).Sound where
  key_eq := h.key_eq
  id_lt d hd := h.id_lt d (owned_of_popped hphase (owned_of_unregistered hd))
  eq_of_sockfd_eq d d' hd hd' := h.eq_of_sockfd_eq d d'
    (owned_of_popped hphase (owned_of_unregistered hd))
    (owned_of_popped hphase (owned_of_unregistered hd'))
  registered l' fd d hlookup := by
    obtain ⟨hbefore, hnot⟩ := lookup_unregistered hlookup
    rw [channelMap_popped] at hbefore
    obtain ⟨hl, hfd, hkept⟩ := h.registered l' fd d hbefore
    refine ⟨hl, hfd, ?_⟩
    -- The connection is another one, whose own functor is not the one that is called.
    have hne : d ≠ c := by
      rintro rfl
      exact hnot ⟨hl, hfd⟩
    rcases hkept with hmap | hremoving | hqueued
    · exact .inl hmap
    · exact .inr (.inl hremoving)
    · right; right
      rw [queued_unregistered]
      exact queued_popped hphase hqueued (by simpa using hne)
  establishing l' d hqueued := by
    rw [queued_unregistered] at hqueued
    obtain ⟨hl, hnew⟩ := h.establishing l' d (queued_of_popped hphase hqueued)
    exact ⟨hl, (hnew.popped hphase).unregistered c⟩
  once l' d := by
    rw [unexecuted_unregistered]
    have hle := count_popped_le hphase l' (.connectEstablished d)
    have honce := h.once l' d
    omega
  removal_base l' d hqueued := by
    rw [queued_unregistered] at hqueued
    exact h.removal_base l' d (queued_of_popped hphase hqueued)

end

end Server

end Reactor
