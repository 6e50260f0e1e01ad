import Reactor.Poll

/-!
# What a call of the poller changes

The two calls of `Poll`, read backwards from their results: which channels they touch, and
what becomes of the map. Nothing is assumed about the calls before.
-/

namespace Reactor

open Transition

namespace Poll

variable {ι : Type*} [DecidableEq ι] {poll poll' : Poll ι} {c d : ι} {mask : EventMask}

/-- A channel without a position is appended; the entry of any other is rewritten. -/
theorem update_ok (hok : poll.step (.update c mask) = .ok poll') :
    (poll.channels c).index < 0 ∧
        poll' = { poll with channels := setEvents poll.channels c mask }.add c ∨
      0 ≤ (poll.channels c).index ∧ (poll.channels c).index < poll.pollfds.length ∧
        poll' = { poll with
          channels := setEvents poll.channels c mask
          pollfds := poll.pollfds.set (poll.channels c).index.toNat
            (updatedEntry { poll.channels c with events := mask }) } := by
  unfold step update at hok
  simp only [setEvents_self] at hok
  split at hok
  · next hindex => exact .inl ⟨hindex, (Except.ok.inj hok).symm⟩
  · split at hok
    · next hindex hlength =>
      exact .inr ⟨by omega, hlength, (Except.ok.inj hok).symm⟩
    · cases hok

/-- The last entry takes the place of the one removed: its channel, which the map knows,
is told its new position. -/
theorem dropEntry_ok (hok : poll.dropEntry c = .ok poll') :
    poll'.channelMap = poll.channelMap ∧
      (poll'.channels = poll.channels ∨
        ∃ fd d, poll.channelMap.lookup fd = some (some d) ∧ 0 ≤ (poll.channels c).index ∧
          poll'.channels = setIndex poll.channels d (poll.channels c).index) := by
  unfold dropEntry at hok
  dsimp only at hok
  split at hok
  · obtain rfl := Except.ok.inj hok
    exact ⟨rfl, .inl rfl⟩
  · split at hok
    · cases hok
    · next hnonneg =>
      split at hok
      · next last _ _ =>
        obtain ⟨rest, hset, hret⟩ := bind_eq_ok.mp hok
        obtain rfl := Except.ok.inj hret
        unfold setIndexOf at hset
        split at hset
        · next d hlookup =>
          obtain rfl := Except.ok.inj hset
          exact ⟨rfl, .inr ⟨_, d, hlookup, by omega, rfl⟩⟩
        · cases hset
      · cases hok

/-- A removal that returns has no entries to deal with, or erases the channel from the map and
gives its index away. -/
theorem remove_ok (hok : poll.step (.remove c) = .ok poll') :
    poll.pollfds = [] ∧ poll' = poll ∨
      poll'.channelMap = poll.channelMap.erase (poll.channels c).fd ∧
        (poll'.channels = poll.channels ∨
          ∃ fd d, poll.channelMap.lookup fd = some (some d) ∧ 0 ≤ (poll.channels c).index ∧
            poll'.channels = setIndex poll.channels d (poll.channels c).index) := by
  unfold step remove at hok
  dsimp only at hok
  split at hok
  · next hempty => exact .inl ⟨hempty, (Except.ok.inj hok).symm⟩
  · split at hok
    · cases hok
    · obtain ⟨rest, hdrop, herase⟩ := bind_eq_ok.mp hok
      obtain ⟨hmap, hchannels⟩ := dropEntry_ok hdrop
      unfold eraseFd at herase
      split at herase
      · obtain rfl := Except.ok.inj herase
        exact .inr ⟨by rw [hmap], hchannels⟩
      · cases herase

/-- A channel keeps its descriptor. -/
theorem fd_step {op : PollerOp ι} (hok : poll.step op = .ok poll') (d : ι) :
    (poll'.channels d).fd = (poll.channels d).fd := by
  cases op with
  | update c mask =>
    rcases update_ok hok with ⟨-, rfl⟩ | ⟨-, -, rfl⟩
    · simp [add]
    · simp
  | remove c =>
    rcases remove_ok hok with ⟨-, rfl⟩ | ⟨-, heq | ⟨fd, d', -, -, heq⟩⟩
    · rfl
    · rw [heq]
    · rw [heq, setIndex_fd]

/-- A channel keeps a position. -/
theorem index_nonneg_step {op : PollerOp ι} (hindex : 0 ≤ (poll.channels d).index)
    (hok : poll.step op = .ok poll') : 0 ≤ (poll'.channels d).index := by
  have hset (e : ι) {index : ℤ} (hnonneg : 0 ≤ index) :
      0 ≤ (setIndex poll.channels e index d).index := by
    by_cases hde : d = e
    · subst hde
      simpa using hnonneg
    · simpa [hde] using hindex
  cases op with
  | update c mask =>
    rcases update_ok hok with ⟨-, rfl⟩ | ⟨-, -, rfl⟩
    · by_cases hdc : d = c
      · subst hdc
        simp [add]
      · simpa [add, hdc] using hindex
    · simpa using hindex
  | remove c =>
    rcases remove_ok hok with ⟨-, rfl⟩ | ⟨-, heq | ⟨fd, e, -, hnonneg, heq⟩⟩
    · exact hindex
    · rwa [heq]
    · rw [heq]
      exact hset e hnonneg

/-- An update gives its channel a position. -/
theorem index_nonneg_of_update (hok : poll.step (.update c mask) = .ok poll') :
    0 ≤ (poll'.channels c).index := by
  rcases update_ok hok with ⟨-, rfl⟩ | ⟨hindex, -, rfl⟩
  · simp [add]
  · simpa using hindex

/-- A channel that the map does not know is left alone by the calls for others. -/
theorem channels_step {op : PollerOp ι} (hok : poll.step op = .ok poll') (hne : d ≠ op.channel)
    (hunknown : ∀ fd, poll.channelMap.lookup fd ≠ some (some d)) :
    poll'.channels d = poll.channels d := by
  cases op with
  | update c mask =>
    have hdc : d ≠ c := hne
    rcases update_ok hok with ⟨-, rfl⟩ | ⟨-, -, rfl⟩
    · simp [add, hdc]
    · exact setEvents_of_ne _ _ hdc
  | remove c =>
    rcases remove_ok hok with ⟨-, rfl⟩ | ⟨-, heq | ⟨fd, e, hlookup, -, heq⟩⟩
    · rfl
    · rw [heq]
    · rw [heq, setIndex_of_ne]
      rintro rfl
      exact hunknown fd hlookup

/-! ## The map -/

variable {s : Finset ι}

/-- A new channel whose descriptor no other has. -/
theorem holds_update_new (h : poll.channelMap.Holds poll.channels s)
    (hindex : (poll.channels c).index < 0)
    (hfd : ∀ d ∈ s, (poll.channels d).fd ≠ (poll.channels c).fd)
    (hok : poll.step (.update c mask) = .ok poll') :
    poll'.channelMap.Holds poll'.channels (insert c s) := by
  rcases update_ok hok with ⟨-, rfl⟩ | ⟨hnonneg, -, -⟩
  · have hset : poll.channelMap.Holds (setEvents poll.channels c mask) s :=
      h.congr fun d => setEvents_fd ..
    have hfd' : ∀ d ∈ s, (setEvents poll.channels c mask d).fd ≠
        (setEvents poll.channels c mask c).fd := by
      simpa using hfd
    have hnot := hset.notMem hfd'
    simp only [add, ChannelMap.insertNew, if_neg hnot]
    exact (hset.insert hfd').congr fun d => setIndex_fd ..
  · omega

/-- A further update of a channel that has a position. -/
theorem holds_update (h : poll.channelMap.Holds poll.channels s)
    (hindex : 0 ≤ (poll.channels c).index) (hok : poll.step (.update c mask) = .ok poll') :
    poll'.channelMap.Holds poll'.channels s := by
  rcases update_ok hok with ⟨hneg, -⟩ | ⟨-, -, rfl⟩
  · omega
  · exact h.congr fun d => setEvents_fd ..

/-- The channel that is removed, and no other one, leaves the map. -/
theorem holds_remove (h : poll.channelMap.Holds poll.channels s) (hc : c ∈ s)
    (hpollfds : poll.pollfds ≠ []) (hok : poll.step (.remove c) = .ok poll') :
    poll'.channelMap.Holds poll'.channels (s.erase c) := by
  have hfds := fd_step hok
  rcases remove_ok hok with ⟨hempty, -⟩ | ⟨hmap, -⟩
  · exact absurd hempty hpollfds
  · rw [hmap]
    exact (h.erase fun d hd hfd => h.eq_of_fd_eq hc hd hfd).congr hfds

/-- After an update the table is not empty. -/
theorem pollfds_ne_nil_of_update (hok : poll.step (.update c mask) = .ok poll') :
    poll'.pollfds ≠ [] := by
  rcases update_ok hok with ⟨-, rfl⟩ | ⟨hindex, hlength, rfl⟩
  · simp [add]
  · apply List.ne_nil_of_length_pos
    rw [List.length_set]
    omega

/-- The map holds the registered channels, and these have a position. -/
structure Serves (poll : Poll ι) (s : Finset ι) : Prop where
  holds : poll.channelMap.Holds poll.channels s
  index_nonneg : ∀ c ∈ s, 0 ≤ (poll.channels c).index

omit [DecidableEq ι] in
/-- What a poller serves is a matter of its map and of the channels served. -/
theorem Serves.congr (h : poll.Serves s) (hmap : poll'.channelMap = poll.channelMap)
    (hchannels : ∀ c ∈ s, poll'.channels c = poll.channels c) : poll'.Serves s where
  holds := by
    rw [hmap]
    exact h.holds.congr_on fun c hc => by rw [hchannels c hc]
  index_nonneg c hc := by
    rw [hchannels c hc]
    exact h.index_nonneg c hc

/-- Channels that are not registered are left alone by the calls for others. -/
theorem Serves.channels_eq (h : poll.Serves s) {op : PollerOp ι} (hok : poll.step op = .ok poll')
    (hne : d ≠ op.channel) (hd : d ∉ s) : poll'.channels d = poll.channels d := by
  apply channels_step hok hne
  intro fd hlookup
  obtain ⟨c, hc, -, heq⟩ := (h.holds _ _).mp hlookup
  exact hd (Option.some.inj heq ▸ hc)

/-- Updating a new channel registers it. -/
theorem Serves.update_new (h : poll.Serves s) (hindex : (poll.channels c).index < 0)
    (hfd : ∀ d ∈ s, (poll.channels d).fd ≠ (poll.channels c).fd)
    (hok : poll.step (.update c mask) = .ok poll') : poll'.Serves (insert c s) := by
  refine ⟨holds_update_new h.holds hindex hfd hok, fun d hd => ?_⟩
  rcases Finset.mem_insert.mp hd with rfl | hd
  · exact index_nonneg_of_update hok
  · exact index_nonneg_step (h.index_nonneg d hd) hok

/-- Updating a registered channel registers no other. -/
theorem Serves.update (h : poll.Serves s) (hc : c ∈ s)
    (hok : poll.step (.update c mask) = .ok poll') : poll'.Serves s :=
  ⟨holds_update h.holds (h.index_nonneg c hc) hok,
    fun d hd => index_nonneg_step (h.index_nonneg d hd) hok⟩

/-- Removing a channel leaves the other ones served. -/
theorem Serves.remove (h : poll.Serves s) (hc : c ∈ s) (hpollfds : poll.pollfds ≠ [])
    (hok : poll.step (.remove c) = .ok poll') : poll'.Serves (s.erase c) :=
  ⟨holds_remove h.holds hc hpollfds hok,
    fun d hd => index_nonneg_step (h.index_nonneg d (Finset.mem_of_mem_erase hd)) hok⟩

end Poll

end Reactor
