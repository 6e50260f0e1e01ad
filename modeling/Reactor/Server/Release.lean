import Reactor.Server.Ownership

/-!
# No connection is lost, none leaks

A connection stays in the map and registered until its handler closes it, and a connection that
has been closed is on its way out: through `removeConnection` in the base loop and
`removeConnectionInPoller` in its own. Whenever the loops have nothing left to do, the connections
that exist are those that have been accepted and not been closed.
-/

namespace Reactor

open Transition

namespace Server

variable {ι : Type*} [DecidableEq ι] [Fintype ι]

/-- The connections that a step closes. -/
def closes : ServerAction ι → List (Connection ι)
  | .handleClose conn => [conn]
  | _ => []

/-- The step function with the closed connections kept beside the state. -/
def stepClosing (s : List (Connection ι) × Server ι) (action : ServerAction ι) :
    Except ServerFault (List (Connection ι) × Server ι) :=
  (s.2.step action).map fun t => (closes action ++ s.1, t)

/-- No loop has a functor left and no user code keeps a connection. -/
def Quiet (s : Server ι) : Prop :=
  s.removing = none ∧ s.userRefs = ∅ ∧ ∀ l, (s.loops l).held = []

/-- The connections that exist are registered and open, and every other one has been closed. -/
structure Exact (s : Server ι) (closed : List (Connection ι)) : Prop where
  registered : ∀ c, s.Owned c → s.InMap c ∧ s.Registered c ∧ c ∉ closed
  accounted : ∀ id < s.nextId, (∃ c, s.Owned c ∧ c.id = id) ∨ ∃ c ∈ closed, c.id = id

/-- The connection is on its way out. -/
def Leaving (s : Server ι) (c : Connection ι) : Prop :=
  s.Removing c ∨ ∃ l, s.Queued l (.removeConnectionInPoller c)

/-- What becomes of the connections. -/
structure Flow (s : Server ι) (closed : List (Connection ι)) : Prop where
  served : ∀ c, s.InMap c → s.Registered c ∨ ∃ l, s.Queued l (.connectEstablished c)
  out : ∀ c ∈ closed, ¬ s.InMap c ∨ ∃ l, s.Queued l (.removeConnection c)
  closed_of_queued : ∀ l c, s.Queued l (.removeConnection c) → c ∈ closed
  closed_of_leaving : ∀ c, s.Leaving c → c ∈ closed ∧ ¬ s.InMap c
  accounted : ∀ id < s.nextId, (∃ c, s.InMap c ∧ c.id = id) ∨ ∃ c ∈ closed, c.id = id
  id_lt : ∀ c ∈ closed, c.id < s.nextId

section

variable {s s' : Server ι} {c d : Connection ι} {l : ι} {f : LoopFunctor ι}
  {closed : List (Connection ι)}

/-- When the loops are quiet, nothing but the map holds a connection. -/
theorem Flow.exact (h : s.Flow closed) (hquiet : s.Quiet) : s.Exact closed := by
  obtain ⟨hremoving, huser, hheld⟩ := hquiet
  have hnot : ∀ l f, ¬ s.Queued l f := by
    intro l f hqueued
    have hmem := ServerLoop.mem_held_of_mem_unexecuted hqueued
    rw [hheld l] at hmem
    cases hmem
  have hmap : ∀ c, s.Owned c → s.InMap c := by
    intro c hc
    rcases owned_iff.mp hc with hmap | ⟨n, hn⟩ | hin | ⟨l, f, hf, -⟩
    · exact hmap
    · rw [hremoving] at hn
      cases hn
    · rw [huser] at hin
      cases hin
    · rw [hheld l] at hf
      cases hf
  constructor
  · intro c hc
    refine ⟨hmap c hc, ?_, fun hclosed => ?_⟩
    · exact (h.served c (hmap c hc)).resolve_right fun ⟨l, hl⟩ => hnot l _ hl
    · rcases h.out c hclosed with hout | ⟨l, hl⟩
      · exact hout (hmap c hc)
      · exact hnot l _ hl
  · intro id hid
    exact (h.accounted id hid).imp_left fun ⟨c, hc, heq⟩ => ⟨c, owned_of_inMap hc, heq⟩

/-- A frame leaves the connections that are leaving. -/
theorem Frame.leaving_iff (h : s.Frame s') : s'.Leaving c ↔ s.Leaving c := by
  unfold Leaving
  rw [h.removing_iff]
  exact or_congr_right (exists_congr fun l => h.queued_iff (by simp [LoopFunctor.owner]))

/-- The flow of connections is kept by frames. -/
theorem Flow.frame (h : s.Flow closed) (hframe : s.Frame s') : s'.Flow closed where
  served c hc := by
    rw [hframe.registered_iff]
    refine (h.served c (hframe.inMap_iff.mp hc)).imp_right (Exists.imp fun l hl => ?_)
    exact (hframe.queued_iff (by simp [LoopFunctor.owner])).mpr hl
  out c hc := by
    rw [hframe.inMap_iff]
    refine (h.out c hc).imp_right (Exists.imp fun l hl => ?_)
    exact (hframe.queued_iff (by simp [LoopFunctor.owner])).mpr hl
  closed_of_queued l c hl :=
    h.closed_of_queued l c ((hframe.queued_iff (by simp [LoopFunctor.owner])).mp hl)
  closed_of_leaving c hc := by
    rw [hframe.inMap_iff]
    exact h.closed_of_leaving c (hframe.leaving_iff.mp hc)
  accounted id hid := by
    rw [hframe.nextId_eq] at hid
    exact (h.accounted id hid).imp_left (Exists.imp fun c => And.imp_left hframe.inMap_iff.mpr)
  id_lt c hc := by
    rw [hframe.nextId_eq]
    exact h.id_lt c hc

/-! ## Accepting and establishing -/

/-- A free descriptor has no entry in the map of a poller. -/
theorem Sound.not_mem_channelMap (h : s.Sound) {sockfd : ℕ} (hfd : ¬ s.FdOpen sockfd) (l : ι) :
    sockfd ∉ (s.loops l).channelMap := by
  intro hmem
  obtain ⟨d, hd⟩ := Finmap.mem_iff.mp hmem
  obtain ⟨-, rfl, hkept⟩ := h.registered l sockfd d hd
  exact hfd (fdOpen_of_owned hkept.owned)

omit [Fintype ι] in
/-- A connection that has been established is registered. -/
theorem registered_connectEstablished (hnot : c.sockfd ∉ (s.loops c.ioLoop).channelMap) :
    (s.connectEstablished c).Registered c := by
  change ((s.setLoop c.ioLoop _).loops c.ioLoop).channelMap.lookup c.sockfd = some c
  rw [loops_setLoop, if_pos rfl]
  dsimp only
  rw [if_neg hnot]
  exact Finmap.lookup_insert ..

omit [Fintype ι] in
/-- Establishing a connection unregisters no other. -/
theorem registered_connectEstablished_of (hd : s.Registered d) :
    (s.connectEstablished c).Registered d := by
  change ((s.setLoop c.ioLoop _).loops d.ioLoop).channelMap.lookup d.sockfd = some d
  rw [loops_setLoop]
  split
  · next heq =>
    have hlookup : (s.loops c.ioLoop).channelMap.lookup d.sockfd = some d := heq ▸ hd
    dsimp only
    split
    · exact hlookup
    · next hnot =>
      have hne : d.sockfd ≠ c.sockfd := by
        intro hfd
        rw [hfd] at hlookup
        exact hnot (Finmap.mem_of_lookup_eq_some hlookup)
      exact (Finmap.lookup_insert_of_ne _ hne).trans hlookup
  · exact hd

omit [DecidableEq ι] [Fintype ι] in
/-- The map gains the accepted connection only. -/
theorem inMap_accepted {sockfd : ℕ} {ioLoop : ι} (hd : (s.accepted sockfd ioLoop).InMap d) :
    s.InMap d ∨ d = ⟨s.nextId, sockfd, ioLoop⟩ := by
  obtain ⟨key, hkey⟩ := hd
  rcases lookup_insert_iff.mp hkey with ⟨-, rfl⟩ | ⟨-, hbefore⟩
  · exact .inr rfl
  · exact .inl ⟨key, hbefore⟩

/-- A new connection is in the map and is established, or will be. -/
theorem Flow.accepted (s' : Server ι) (h : s.Flow closed) (hsound : s.Sound) {sockfd : ℕ}
    (hfd : ¬ s.FdOpen sockfd) {ioLoop : ι}
    (hconnections : s'.connections = (s.accepted sockfd ioLoop).connections)
    (hnextId : s'.nextId = s.nextId + 1) (hremoving : s'.removing = s.removing)
    (hserved : s'.Registered ⟨s.nextId, sockfd, ioLoop⟩ ∨
      ∃ l, s'.Queued l (.connectEstablished ⟨s.nextId, sockfd, ioLoop⟩))
    (hregistered : ∀ d, s.Registered d → s'.Registered d)
    (hqueued : ∀ l f, s.Queued l f → s'.Queued l f)
    (hbefore : ∀ l f, s'.Queued l f → (∀ d, f ≠ .connectEstablished d) → s.Queued l f) :
    s'.Flow closed := by
  have hmap : ∀ d, s'.InMap d ↔ (s.accepted sockfd ioLoop).InMap d := by
    intro d
    unfold InMap
    rw [hconnections]
  have hleaving : ∀ d, s'.Leaving d → s.Leaving d := by
    rintro d (⟨n, hn⟩ | ⟨l, hl⟩)
    · exact .inl ⟨n, hremoving.symm.trans hn⟩
    · exact .inr ⟨l, hbefore l _ hl (by simp)⟩
  have hnew : ∀ d ∈ closed, s'.InMap d → s.InMap d := by
    intro d hd hin
    rcases inMap_accepted ((hmap d).mp hin) with hbefore | rfl
    · exact hbefore
    · exact absurd (h.id_lt _ hd) (Nat.lt_irrefl _)
  refine ⟨fun d hd => ?_, fun d hd => ?_, fun l d hl => ?_, fun d hd => ?_, fun id hid => ?_,
    fun d hd => ?_⟩
  · rcases inMap_accepted ((hmap d).mp hd) with hold | rfl
    · rcases h.served d hold with hreg | ⟨l, hl⟩
      · exact .inl (hregistered d hreg)
      · exact .inr ⟨l, hqueued l _ hl⟩
    · exact hserved
  · exact (h.out d hd).imp (fun hout hin => hout (hnew d hd hin)) fun ⟨l, hl⟩ => ⟨l, hqueued l _ hl⟩
  · exact h.closed_of_queued l d (hbefore l _ hl (by simp))
  · obtain ⟨hclosed, hout⟩ := h.closed_of_leaving d (hleaving d hd)
    exact ⟨hclosed, fun hin => hout (hnew d hclosed hin)⟩
  · rw [hnextId, Nat.lt_succ_iff_lt_or_eq] at hid
    rcases hid with hold | rfl
    · refine (h.accounted id hold).imp_left fun ⟨d, hd, heq⟩ => ⟨d, ?_, heq⟩
      exact (hmap d).mpr (hsound.inMap_accepted hfd ioLoop hd)
    · refine .inl ⟨⟨s.nextId, sockfd, ioLoop⟩, (hmap _).mpr ?_, rfl⟩
      exact (hsound.new_accepted sockfd ioLoop).inMap
  · rw [hnextId]
    exact Nat.lt_succ_of_lt (h.id_lt d hd)

/-- An accepted connection joins the flow. -/
theorem Flow.onConnection (h : s.Flow closed) (hsound : s.Sound) {sockfd : ℕ}
    (hfd : ¬ s.FdOpen sockfd) (ioLoop : ι) : (s.onConnection sockfd ioLoop).Flow closed := by
  unfold Server.onConnection
  dsimp only
  split
  · refine h.accepted ((s.accepted sockfd ioLoop).connectEstablished _) hsound hfd rfl rfl rfl
      (.inl ?_) (fun d hd => ?_) (fun l f hl => ?_) fun l f hl _ => ?_
    · exact registered_connectEstablished (hsound.not_mem_channelMap hfd ioLoop)
    · exact registered_connectEstablished_of (s := s.accepted sockfd ioLoop) hd
    · exact queued_connectEstablished.mpr hl
    · exact queued_connectEstablished.mp hl
  · refine h.accepted ((s.accepted sockfd ioLoop).queueInLoop ioLoop _) hsound hfd rfl rfl rfl
      (.inr ⟨ioLoop, ?_⟩) (fun d hd => ?_) (fun l f hl => ?_) fun l f hl hne => ?_
    · exact queued_queueInLoop_iff.mpr (.inr ⟨rfl, rfl⟩)
    · unfold Registered
      rw [channelMap_queueInLoop]
      exact hd
    · exact queued_queueInLoop_iff.mpr (.inl hl)
    · exact (queued_queueInLoop_iff.mp hl).resolve_right fun ⟨_, heq⟩ => hne _ heq

/-! ## Closing and removing -/

/-- The connection that is removed, and no other one, leaves the map. -/
theorem Sound.inMap_removeConnection_iff (h : s.Sound) (hc : s.Owned c) :
    (s.removeConnection c).InMap d ↔ s.InMap d ∧ d ≠ c := by
  constructor
  · rintro ⟨key, hkey⟩
    obtain ⟨hne, hbefore⟩ := lookup_removeConnection hkey
    refine ⟨⟨key, hbefore⟩, ?_⟩
    rintro rfl
    exact hne (h.key_eq key d hbefore)
  · rintro ⟨hmap, hne⟩
    exact h.inMap_removeConnection hc hne hmap

omit [Fintype ι] in
/-- The connection leaves the map, and the base loop is behind the erase. -/
theorem Flow.removed (h : s.Flow closed) {closed' : List (Connection ι)} (hid : c.id < s.nextId)
    (hclosed : ∀ d, d ∈ closed' ↔ d ∈ closed ∨ d = c)
    (hmap : ∀ d, s'.InMap d ↔ s.InMap d ∧ d ≠ c)
    (hregistered : ∀ d, s'.Registered d ↔ s.Registered d)
    (hqueued : ∀ l f, f ≠ .removeConnection c → (s'.Queued l f ↔ s.Queued l f))
    (hremoving : ∀ d, s'.Removing d → d = c) (hnextId : s'.nextId = s.nextId) :
    s'.Flow closed' := by
  refine ⟨fun d hd => ?_, fun d hd => ?_, fun l d hl => ?_, fun d hd => ?_, fun id hid' => ?_,
    fun d hd => ?_⟩
  · rw [hregistered]
    refine (h.served d ((hmap d).mp hd).1).imp_right fun ⟨l, hl⟩ => ⟨l, ?_⟩
    exact (hqueued l _ (by simp)).mpr hl
  · by_cases hne : d = c
    · exact .inl fun hin => ((hmap d).mp hin).2 hne
    · have hold := ((hclosed d).mp hd).resolve_right hne
      refine (h.out d hold).imp (fun hout hin => hout ((hmap d).mp hin).1) fun ⟨l, hl⟩ => ⟨l, ?_⟩
      exact (hqueued l _ (by simpa using hne)).mpr hl
  · by_cases hne : d = c
    · exact (hclosed d).mpr (.inr hne)
    · have hold := (hqueued l _ (by simpa using hne)).mp hl
      exact (hclosed d).mpr (.inl (h.closed_of_queued l d hold))
  · by_cases hne : d = c
    · exact ⟨(hclosed d).mpr (.inr hne), fun hin => ((hmap d).mp hin).2 hne⟩
    · have hleaving : s.Leaving d := by
        rcases hd with hd | ⟨l, hl⟩
        · exact absurd (hremoving d hd) hne
        · exact .inr ⟨l, (hqueued l _ (by simp)).mp hl⟩
      obtain ⟨hold, hout⟩ := h.closed_of_leaving d hleaving
      exact ⟨(hclosed d).mpr (.inl hold), fun hin => hout ((hmap d).mp hin).1⟩
  · rw [hnextId] at hid'
    rcases h.accounted id hid' with ⟨d, hd, heq⟩ | ⟨d, hd, heq⟩
    · by_cases hne : d = c
      · exact .inr ⟨d, (hclosed d).mpr (.inr hne), heq⟩
      · exact .inl ⟨d, (hmap d).mpr ⟨hd, hne⟩, heq⟩
    · exact .inr ⟨d, (hclosed d).mpr (.inl hd), heq⟩
  · rw [hnextId]
    rcases (hclosed d).mp hd with hold | rfl
    · exact h.id_lt d hold
    · exact hid

omit [DecidableEq ι] [Fintype ι] in
/-- The connection that is being removed is the one handed over. -/
theorem removing_of_removeConnection (hd : (s.removeConnection c).Removing d) : d = c := by
  obtain ⟨n, hn⟩ := hd
  exact (Prod.mk.inj (Option.some.inj hn)).1.symm

/-- A closed connection is on its way out. -/
theorem Flow.handleClose (h : s.Flow closed) (hsound : s.Sound) (hc : s.Registered c) :
    (s.handleClose c).Flow (c :: closed) := by
  have howned := (hsound.kept hc).owned
  have hid := hsound.id_lt c howned
  have hclosed : ∀ d, d ∈ c :: closed ↔ d ∈ closed ∨ d = c := by
    intro d
    rw [List.mem_cons, or_comm]
  unfold Server.handleClose closeConnection
  split
  · exact h.removed hid hclosed (fun d => hsound.inMap_removeConnection_iff howned)
      (fun d => Iff.rfl) (fun l f _ => Iff.rfl) (fun d => removing_of_removeConnection) rfl
  · refine ⟨fun d hd => ?_, fun d hd => ?_, fun l d hl => ?_, fun d hd => ?_, fun id hid' => ?_,
      fun d hd => ?_⟩
    · refine (h.served d hd).imp (fun hreg => ?_) fun ⟨l, hl⟩ => ⟨l, ?_⟩
      · unfold Registered
        rw [channelMap_queueInLoop]
        exact hreg
      · exact queued_queueInLoop_iff.mpr (.inl hl)
    · rcases (hclosed d).mp hd with hold | rfl
      · refine (h.out d hold).imp_right fun ⟨l, hl⟩ => ⟨l, ?_⟩
        exact queued_queueInLoop_iff.mpr (.inl hl)
      · exact .inr ⟨s.base, queued_queueInLoop_iff.mpr (.inr ⟨rfl, rfl⟩)⟩
    · rcases queued_queueInLoop_iff.mp hl with hold | ⟨-, heq⟩
      · exact List.mem_cons_of_mem _ (h.closed_of_queued l d hold)
      · obtain rfl := LoopFunctor.removeConnection.inj heq
        exact List.mem_cons_self
    · have hleaving : s.Leaving d := by
        rcases hd with hd | ⟨l, hl⟩
        · exact .inl hd
        · exact .inr ⟨l, (queued_queueInLoop_iff.mp hl).resolve_right (by simp)⟩
      obtain ⟨hold, hout⟩ := h.closed_of_leaving d hleaving
      exact ⟨List.mem_cons_of_mem _ hold, hout⟩
    · refine (h.accounted id hid').imp_right fun ⟨d, hd, heq⟩ => ⟨d, ?_, heq⟩
      exact List.mem_cons_of_mem _ hd
    · rcases (hclosed d).mp hd with hold | rfl
      · exact h.id_lt d hold
      · exact hid

omit [Fintype ι] in
/-- The second half of the removal moves the connection on into its loop. -/
theorem Flow.queueRemoval (h : s.Flow closed) {n : ℕ} (hremoving : s.removing = some (c, n)) :
    ({ s with removing := none }.queueInLoop c.ioLoop
      (.removeConnectionInPoller c)).Flow closed := by
  refine ⟨fun d hd => ?_, fun d hd => ?_, fun l d hl => ?_, fun d hd => ?_, h.accounted, h.id_lt⟩
  · refine (h.served d hd).imp (fun hreg => ?_) fun ⟨l, hl⟩ => ⟨l, ?_⟩
    · unfold Registered
      rw [channelMap_queueInLoop]
      exact hreg
    · exact queued_queueInLoop_iff.mpr (.inl hl)
  · refine (h.out d hd).imp_right fun ⟨l, hl⟩ => ⟨l, ?_⟩
    exact queued_queueInLoop_iff.mpr (.inl hl)
  · exact h.closed_of_queued l d ((queued_queueInLoop_iff.mp hl).resolve_right (by simp))
  · apply h.closed_of_leaving d
    rcases hd with ⟨n', hn'⟩ | ⟨l, hl⟩
    · cases hn'
    · rcases queued_queueInLoop_iff.mp hl with hold | ⟨-, heq⟩
      · exact .inr ⟨l, hold⟩
      · obtain rfl := LoopFunctor.removeConnectionInPoller.inj heq
        exact .inl ⟨n, hremoving⟩

/-! ## The functors -/

section

variable {called rest : List (LoopFunctor ι)}

omit [Fintype ι] in
/-- Other functors than the one taken are queued as before. -/
theorem queued_popped_iff (hphase : (s.loops l).phase = .functors called (f :: rest)) {l' : ι}
    {g : LoopFunctor ι} (hne : g ≠ f) : (s.popped l called f rest).Queued l' g ↔ s.Queued l' g :=
  ⟨queued_of_popped hphase, fun hg => queued_popped hphase hg hne⟩

omit [Fintype ι] in
/-- Taking a functor unregisters nothing. -/
theorem registered_popped : (s.popped l called f rest).Registered d ↔ s.Registered d := by
  unfold Registered
  rw [channelMap_popped]

/-- A connection that is established stays in the flow. -/
theorem Flow.connectEstablished (h : s.Flow closed) (hsound : s.Sound)
    (hphase : (s.loops l).phase = .functors called (.connectEstablished c :: rest)) :
    ((s.popped l called (.connectEstablished c) rest).connectEstablished c).Flow closed := by
  have hnew := (hsound.establishing l c (queued_next hphase)).2
  have hfree : c.sockfd ∉ (s.loops c.ioLoop).channelMap := by
    intro hmem
    obtain ⟨d, hd⟩ := Finmap.mem_iff.mp hmem
    obtain ⟨-, hfd, hkept⟩ := hsound.registered c.ioLoop c.sockfd d hd
    obtain rfl := hsound.eq_of_sockfd_eq c d (owned_of_inMap hnew.inMap) hkept.owned hfd
    exact hnew.not_registered hd
  have hqueued : ∀ {l' f}, f ≠ .connectEstablished c →
      (((s.popped l called (.connectEstablished c) rest).connectEstablished c).Queued l' f ↔
        s.Queued l' f) :=
    fun hne => queued_connectEstablished.trans (queued_popped_iff hphase hne)
  refine ⟨fun d hd => ?_, fun d hd => ?_, fun l' d hl => ?_, fun d hd => ?_, h.accounted, h.id_lt⟩
  · by_cases hne : d = c
    · subst hne
      left
      apply registered_connectEstablished
      rwa [channelMap_popped]
    · refine (h.served d hd).imp (fun hreg => ?_) fun ⟨l', hl⟩ => ⟨l', ?_⟩
      · exact registered_connectEstablished_of (registered_popped.mpr hreg)
      · exact (hqueued (by simpa using hne)).mpr hl
  · refine (h.out d hd).imp_right fun ⟨l', hl⟩ => ⟨l', (hqueued (by simp)).mpr hl⟩
  · exact h.closed_of_queued l' d ((hqueued (by simp)).mp hl)
  · apply h.closed_of_leaving d
    exact hd.imp_right fun ⟨l', hl⟩ => ⟨l', (hqueued (by simp)).mp hl⟩

/-- A connection that is unregistered leaves the flow. -/
theorem Flow.unregistered (h : s.Flow closed) (hsound : s.Sound)
    (hphase : (s.loops l).phase = .functors called (.removeConnectionInPoller c :: rest)) :
    ((s.popped l called (.removeConnectionInPoller c) rest).unregistered c).Flow closed := by
  have hleft := h.closed_of_leaving c (.inr ⟨l, queued_next hphase⟩)
  have hc := owned_of_queued (queued_next hphase) rfl
  have hbefore : ∀ {l' f},
      ((s.popped l called (.removeConnectionInPoller c) rest).unregistered c).Queued l' f →
        s.Queued l' f :=
    fun hl => queued_of_popped hphase (queued_unregistered.mp hl)
  have hqueued : ∀ {l' f}, f ≠ .removeConnectionInPoller c → s.Queued l' f →
      ((s.popped l called (.removeConnectionInPoller c) rest).unregistered c).Queued l' f :=
    fun hne hl => queued_unregistered.mpr (queued_popped hphase hl hne)
  refine ⟨fun d hd => ?_, fun d hd => ?_, fun l' d hl => ?_, fun d hd => ?_, h.accounted, h.id_lt⟩
  · refine (h.served d hd).imp (fun hreg => ?_) fun ⟨l', hl⟩ => ⟨l', hqueued (by simp) hl⟩
    -- The connection whose channel is unregistered is another one, for it has left the map.
    have hfd : d.sockfd ≠ c.sockfd := by
      intro hfd
      obtain rfl := hsound.eq_of_sockfd_eq d c (owned_of_inMap hd) hc hfd
      exact hleft.2 hd
    have hreg : (s.popped l called (.removeConnectionInPoller c) rest).Registered d :=
      registered_popped.mpr hreg
    unfold Registered Server.unregistered
    rw [loops_setLoop]
    split
    · next heq =>
      rw [heq.symm] at *
      exact (Finmap.lookup_erase_ne hfd).trans hreg
    · exact hreg
  · exact (h.out d hd).imp_right fun ⟨l', hl⟩ => ⟨l', hqueued (by simp) hl⟩
  · exact h.closed_of_queued l' d (hbefore hl)
  · apply h.closed_of_leaving d
    exact hd.imp_right fun ⟨l', hl⟩ => ⟨l', hbefore hl⟩

/-- A functor of a batch is called. -/
theorem Flow.call (h : s.Flow closed) (hsound : s.Sound)
    (hphase : (s.loops l).phase = .functors called (f :: rest))
    (hok : (s.popped l called f rest).call f = .ok s') : s'.Flow closed := by
  cases f with
  | connectEstablished c =>
    obtain rfl := Except.ok.inj hok
    exact h.connectEstablished hsound hphase
  | removeConnection c =>
    obtain rfl := Except.ok.inj hok
    have hclosed := h.closed_of_queued l c (queued_next hphase)
    have hpopped := hsound.popped hphase (by simp)
    refine h.removed (h.id_lt c hclosed) (fun d => (or_iff_left_of_imp ?_).symm)
      (fun d => hpopped.inMap_removeConnection_iff (owned_popped_self rfl))
      (fun d => registered_popped) (fun l' f hne => queued_popped_iff hphase hne)
      (fun d => removing_of_removeConnection) rfl
    rintro rfl
    exact hclosed
  | removeConnectionInPoller c =>
    obtain ⟨-, rfl⟩ := ite_eq_ok.mp hok
    exact h.unregistered hsound hphase
  | sendInLoop c message datalen sent =>
    exact h.frame ((frame_popped hphase rfl).trans (frame_sendInLoop hok))
  | shutdownInLoop c =>
    exact h.frame ((frame_popped hphase rfl).trans (frame_shutdownInLoop hok))

end

/-- Every step keeps track of the connections. -/
theorem Flow.step (h : s.Flow closed) (hsound : s.Sound) {action : ServerAction ι}
    (hok : s.step action = .ok s') : s'.Flow (closes action ++ closed) := by
  cases action with
  | onConnection sockfd ioLoop =>
    rw [Server.step] at hok
    split at hok
    · obtain ⟨⟨-, hfd⟩, rfl⟩ := ite_eq_ok.mp hok
      exact h.onConnection hsound hfd ioLoop
    · cases hok
  | handleClose c =>
    rw [Server.step] at hok
    split at hok
    · obtain ⟨⟨hc, -⟩, rfl⟩ := ite_eq_ok.mp hok
      exact h.handleClose hsound hc
    · cases hok
  | queueRemoval =>
    rw [Server.step] at hok
    split at hok
    · next c hremoving =>
      obtain rfl := Except.ok.inj hok
      exact h.queueRemoval hremoving
    · cases hok
    · cases hok
  | swap l =>
    rw [Server.step] at hok
    split at hok
    · next hphase =>
      obtain ⟨-, rfl⟩ := ite_eq_ok.mp hok
      exact h.frame (frame_swap hphase)
    · cases hok
  | callFunctor l =>
    rw [Server.step] at hok
    split at hok
    · next called f rest hphase =>
      obtain ⟨-, hcall⟩ := guard_eq_ok.mp hok
      exact h.call hsound hphase hcall
    · cases hok
  | endBatch l =>
    rw [Server.step] at hok
    split at hok
    · next called hphase =>
      obtain ⟨-, rfl⟩ := ite_eq_ok.mp hok
      exact h.frame (frame_endBatch hphase)
    · cases hok
  | retain c =>
    obtain ⟨hc, rfl⟩ := ite_eq_ok.mp hok
    refine h.frame (frame_setUserRefs fun d hd => ?_)
    rcases Finset.mem_insert.mp hd with rfl | hd
    · exact hc
    · exact owned_of_userRef hd
  | release c =>
    obtain ⟨-, rfl⟩ := ite_eq_ok.mp hok
    exact h.frame (frame_setUserRefs fun d hd => owned_of_userRef (Finset.mem_of_mem_erase hd))
  | send inLoop c message datalen =>
    rw [Server.step] at hok
    split at hok
    · split at hok
      · exact h.frame (frame_sendInLoop hok)
      · obtain ⟨-, rfl⟩ := ite_eq_ok.mp hok
        exact h.frame (frame_queueInLoop rfl)
    · cases hok
  | shutdown inLoop c =>
    rw [Server.step] at hok
    split at hok
    · exact h.frame (frame_shutdownInLoop hok)
    · obtain ⟨-, rfl⟩ := ite_eq_ok.mp hok
      exact h.frame (frame_queueInLoop rfl)
  | setMemory address value =>
    obtain rfl := Except.ok.inj hok
    exact h.frame (frame_setMemory s _)

end

/-- Nothing flows through a server that has just been started. -/
theorem flow_started (name : String) (base : ι) (memory : ℕ → Option UInt8) :
    (started name base memory).Flow [] where
  served c hc := absurd (owned_of_inMap hc) (not_owned_started name base memory c)
  out := List.forall_mem_nil _
  closed_of_queued l c hl := by cases hl
  closed_of_leaving c hc := by
    rcases hc with ⟨n, hn⟩ | ⟨l, hl⟩
    · cases hn
    · cases hl
  accounted id hid := absurd hid (Nat.not_lt_zero id)
  id_lt := List.forall_mem_nil _

/-- In every interleaving, whenever the loops have become quiet, the connections that exist are
exactly those that have been accepted and not been closed, and each of them is registered. -/
theorem connections_exact (name : String) (base : ι) (memory : ℕ → Option UInt8)
    (actions : List (ServerAction ι)) :
    Always stepClosing (fun s => s.2.Quiet → s.2.Exact s.1) ([], started name base memory)
      actions := by
  have hkeep : ∀ (s : List (Connection ι) × Server ι) a t, s.2.Sound ∧ s.2.Flow s.1 →
      stepClosing s a = .ok t → t.2.Sound ∧ t.2.Flow t.1 := by
    rintro s a t ⟨hsound, hflow⟩ hok
    obtain ⟨u, hstep, rfl⟩ := map_eq_ok.mp hok
    exact ⟨hsound.step hstep, hflow.step hsound hstep⟩
  apply along_of_guarded (fun s : List (Connection ι) × Server ι => s.2.Sound ∧ s.2.Flow s.1) ?_
    (fun s a t hs _ => hkeep s a t hs)
    ⟨sound_started name base memory, flow_started name base memory⟩ guarded_true
  exact fun s a hs _ t hok hquiet => (hkeep s a t hs hok).2.exact hquiet

end Server

end Reactor
