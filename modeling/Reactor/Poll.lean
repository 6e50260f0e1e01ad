import Reactor.Lib.Run
import Reactor.Poller

/-!
# The poller of `poll`

`Poll` keeps an array of `struct pollfd`, in which every channel knows its position, and
fills the hole of a removed entry with the last one. The channel of the last entry is
found through the descriptor in the entry; an update that leaves a channel without
interest has replaced it by -1. Removals that meet no such entry keep the registry.
-/

namespace Reactor

open Transition

/-- `struct pollfd`. -/
structure PollFd where
  fd : ℤ
  events : EventMask
  revents : EventMask := 0
  deriving DecidableEq, Repr

/-- The entry is that of the channel; without interest its descriptor may be -1. -/
def PollFd.IsOf (entry : PollFd) (channel : Channel) : Prop :=
  entry.events = channel.events ∧
    (entry.fd = channel.fd ∨ entry.fd = -1 ∧ channel.isNoneEvent = true)

/-- `Poll`, with the channels that it points to. The number of descriptors of a process
is far below `2 ^ 31`, so that an index is not truncated to an `int`. -/
structure Poll (ι : Type*) where
  pollfds : List PollFd := []
  channelMap : ChannelMap ι := ∅
  channels : ι → Channel

namespace Poll

variable {ι : Type*} [DecidableEq ι]

/-- The first call for a channel appends an entry. -/
def add (poll : Poll ι) (c : ι) : Poll ι :=
  let channel := poll.channels c
  let pollfds := poll.pollfds ++ [{ fd := channel.fd, events := channel.events }]
  { pollfds
    channels := setIndex poll.channels c ((pollfds.length : ℤ) - 1)
    channelMap := poll.channelMap.insertNew channel.fd c }

/-- The entry that a later update writes. -/
def updatedEntry (channel : Channel) : PollFd :=
  { fd := if channel.isNoneEvent then -1 else channel.fd, events := channel.events }

/-- `Poll::update`. -/
def update (poll : Poll ι) (c : ι) : Except Fault (Poll ι) :=
  let channel := poll.channels c
  if channel.index < 0 then
    .ok (poll.add c)
  else if channel.index < poll.pollfds.length then
    .ok { poll with pollfds := poll.pollfds.set channel.index.toNat (updatedEntry channel) }
  else
    .error .outOfBounds

/-- `channelMap_[fd]->setIndex(index)`. The subscript inserts a null pointer for an
unknown descriptor. -/
def setIndexOf (poll : Poll ι) (fd index : ℤ) : Except Fault (Poll ι) :=
  match poll.channelMap.lookup fd with
  | some (some d) => .ok { poll with channels := setIndex poll.channels d index }
  | _ => .error .nullDereference

/-- The entry of a channel is exchanged with the last one, which is then dropped. -/
def dropEntry (poll : Poll ι) (c : ι) : Except Fault (Poll ι) :=
  let index := (poll.channels c).index
  if index = (poll.pollfds.length : ℤ) - 1 then
    .ok { poll with pollfds := poll.pollfds.dropLast }
  else if index < 0 then
    .error .outOfBounds
  else
    match poll.pollfds[index.toNat]?, poll.pollfds.getLast? with
    | some entry, some last => do
      let swapped := (poll.pollfds.set index.toNat last).set (poll.pollfds.length - 1) entry
      let poll ← { poll with pollfds := swapped }.setIndexOf last.fd index
      return { poll with pollfds := poll.pollfds.dropLast }
    | _, _ => .error .outOfBounds

/-- `channelMap_.erase(fd)`, which must find the descriptor. -/
def eraseFd (poll : Poll ι) (fd : ℤ) : Except Fault (Poll ι) :=
  if fd ∈ poll.channelMap then
    .ok { poll with channelMap := poll.channelMap.erase fd }
  else
    .error .assertFailed

/-- `Poll::remove`. -/
def remove (poll : Poll ι) (c : ι) : Except Fault (Poll ι) :=
  if poll.pollfds = [] then
    .ok poll
  else if (poll.channels c).fd < 0 then
    .error .assertFailed
  else do
    let rest ← poll.dropEntry c
    rest.eraseFd (poll.channels c).fd

/-- A call of the poller. -/
def step (poll : Poll ι) : PollerOp ι → Except Fault (Poll ι)
  | .update c mask => { poll with channels := setEvents poll.channels c mask }.update c
  | .remove c => poll.remove c

/-- The poller before the first call. -/
def init (fd : ι ↪ ℕ) : Poll ι := { channels := newChannels fd }

/-- The table and the map describe the registered channels. -/
structure Intact (poll : Poll ι) (s : Finset ι) : Prop where
  size_eq : poll.pollfds.length = poll.channelMap.keys.card
  holds : poll.channelMap.Holds poll.channels s
  entry : ∀ c ∈ s, ∃ (i : ℕ) (entry : PollFd), (poll.channels c).index = i ∧
    poll.pollfds[i]? = some entry ∧ entry.IsOf (poll.channels c)
  index_inj : ∀ c ∈ s, ∀ d ∈ s, (poll.channels c).index = (poll.channels d).index → c = d

/-- The calls for a channel begin with an update and end with its removal. -/
def Lifecycle : List (PollerOp ι) × Poll ι → PollerOp ι → Prop
  | (done, _), .update c _ => .remove c ∉ done
  | (done, _), .remove c => c ∈ registered done

/-- A channel whose entry is not the last one is removed only while the last entry
carries a descriptor. -/
def LastEntryKnown : List (PollerOp ι) × Poll ι → PollerOp ι → Prop
  | _, .update _ _ => True
  | (_, poll), .remove c => ∀ last ∈ poll.pollfds.getLast?, last.fd = -1 →
    (poll.channels c).index = (poll.pollfds.length : ℤ) - 1

/-- Whose entry it is does not depend on the indices. -/
@[simp] theorem isOf_setIndex {entry : PollFd} {channels : ι → Channel} {c d : ι} {index : ℤ} :
    entry.IsOf (setIndex channels c index d) ↔ entry.IsOf (channels d) := by
  simp [PollFd.IsOf, Channel.isNoneEvent]

/-- The entry made for a channel is its entry. -/
theorem isOf_updatedEntry (channel : Channel) : (updatedEntry channel).IsOf channel := by
  refine ⟨rfl, ?_⟩
  cases h : channel.isNoneEvent with
  | true => simp [updatedEntry, h]
  | false => simp [updatedEntry, h]

instance (t : List (PollerOp ι) × Poll ι) (op : PollerOp ι) : Decidable (Lifecycle t op) :=
  match op with
  | .update c _ => inferInstanceAs (Decidable (.remove c ∉ t.1))
  | .remove c => inferInstanceAs (Decidable (c ∈ registered t.1))

instance (t : List (PollerOp ι) × Poll ι) (op : PollerOp ι) : Decidable (LastEntryKnown t op) :=
  match op with
  | .update _ _ => .isTrue trivial
  | .remove c => inferInstanceAs (Decidable (∀ last ∈ t.2.pollfds.getLast?, last.fd = -1 →
      (t.2.channels c).index = (t.2.pollfds.length : ℤ) - 1))

/-- The table of entries, in which the registered channels know their positions. -/
structure Layout (pollfds : List PollFd) (channels : ι → Channel) (s : Finset ι) : Prop where
  entry : ∀ c ∈ s, ∃ (i : ℕ) (entry : PollFd), (channels c).index = i ∧
    pollfds[i]? = some entry ∧ entry.IsOf (channels c)
  index_inj : ∀ c ∈ s, ∀ d ∈ s, (channels c).index = (channels d).index → c = d
  owner : ∀ i < pollfds.length, ∃ c ∈ s, (channels c).index = i

/-- The invariant of the poller. -/
structure Packed (fd : ι ↪ ℕ) (s : Finset ι) (poll : Poll ι) : Prop where
  size_eq : poll.pollfds.length = poll.channelMap.keys.card
  holds : poll.channelMap.Holds poll.channels s
  layout : Layout poll.pollfds poll.channels s
  fd_eq : ∀ c, (poll.channels c).fd = fd c

namespace Layout

variable {pollfds : List PollFd} {channels : ι → Channel} {s : Finset ι} {c d : ι}

omit [DecidableEq ι] in
/-- The index of a registered channel is one of `pollfds_`. -/
theorem index_lt (h : Layout pollfds channels s) (hc : c ∈ s) :
    0 ≤ (channels c).index ∧ (channels c).index < pollfds.length := by
  obtain ⟨i, entry, hi, hentry, -⟩ := h.entry c hc
  have hlt := (List.getElem?_eq_some_iff.mp hentry).1
  omega

omit [DecidableEq ι] in
/-- The table concerns the registered channels only. -/
theorem congr (h : Layout pollfds channels s) {channels' : ι → Channel}
    (heq : ∀ c ∈ s, channels' c = channels c) : Layout pollfds channels' s where
  entry c hc := by
    rw [heq c hc]
    exact h.entry c hc
  index_inj c hc d hd hcd := by
    rw [heq c hc, heq d hd] at hcd
    exact h.index_inj c hc d hd hcd
  owner i hi := by
    obtain ⟨c, hc, hci⟩ := h.owner i hi
    exact ⟨c, hc, by rwa [heq c hc]⟩

/-- A new entry at the end. -/
theorem push (h : Layout pollfds channels s) (hc : c ∉ s) (entry : PollFd)
    (hentry : entry.IsOf (channels c)) :
    Layout (pollfds ++ [entry]) (setIndex channels c pollfds.length) (insert c s) where
  entry d hd := by
    by_cases hdc : d = c
    · subst hdc
      exact ⟨pollfds.length, entry, by simp, by simp, isOf_setIndex.mpr hentry⟩
    · obtain ⟨i, e, hi, he, hof⟩ := h.entry d (Finset.mem_of_mem_insert_of_ne hd hdc)
      have hlt := (List.getElem?_eq_some_iff.mp he).1
      rw [setIndex_of_ne _ _ hdc]
      exact ⟨i, e, hi, by rwa [List.getElem?_append_left hlt], hof⟩
  index_inj d hd d' hd' heq := by
    by_cases hdc : d = c <;> by_cases hdc' : d' = c
    · exact hdc.trans hdc'.symm
    · have := h.index_lt (Finset.mem_of_mem_insert_of_ne hd' hdc')
      subst hdc
      rw [setIndex_self, setIndex_of_ne _ _ hdc'] at heq
      dsimp only at heq
      omega
    · have := h.index_lt (Finset.mem_of_mem_insert_of_ne hd hdc)
      subst hdc'
      rw [setIndex_self, setIndex_of_ne _ _ hdc] at heq
      dsimp only at heq
      omega
    · rw [setIndex_of_ne _ _ hdc, setIndex_of_ne _ _ hdc'] at heq
      exact h.index_inj d (Finset.mem_of_mem_insert_of_ne hd hdc) d'
        (Finset.mem_of_mem_insert_of_ne hd' hdc') heq
  owner i hi := by
    rw [List.length_append, List.length_singleton] at hi
    by_cases heq : i = pollfds.length
    · exact ⟨c, Finset.mem_insert_self c s, by simp [heq]⟩
    · obtain ⟨d, hd, hdi⟩ := h.owner i (by omega)
      have hdc : d ≠ c := by
        rintro rfl
        exact hc hd
      exact ⟨d, Finset.mem_insert_of_mem hd, by rwa [setIndex_of_ne _ _ hdc]⟩

/-- A new mask of a registered channel is written to its entry. -/
theorem rewrite (h : Layout pollfds channels s) (hc : c ∈ s) (mask : EventMask) :
    Layout (pollfds.set (channels c).index.toNat
      (updatedEntry { channels c with events := mask })) (setEvents channels c mask) s where
  entry d hd := by
    obtain ⟨i, e, hi, he, hof⟩ := h.entry d hd
    obtain ⟨hlt, -⟩ := List.getElem?_eq_some_iff.mp he
    by_cases hdc : d = c
    · subst hdc
      refine ⟨i, _, by rwa [setEvents_index], ?_, by
        rw [setEvents_self]
        exact isOf_updatedEntry _⟩
      rw [hi, Int.toNat_natCast, List.getElem?_set_self hlt]
    · have hci := h.index_lt hc
      have hne : (channels d).index ≠ (channels c).index := fun heq =>
        hdc (h.index_inj d hd c hc heq)
      refine ⟨i, e, by rwa [setEvents_index], ?_, by rwa [setEvents_of_ne _ _ hdc]⟩
      rw [List.getElem?_set_ne (by omega), he]
  index_inj d hd d' hd' heq := by
    rw [setEvents_index, setEvents_index] at heq
    exact h.index_inj d hd d' hd' heq
  owner i hi := by
    rw [List.length_set] at hi
    obtain ⟨d, hd, hdi⟩ := h.owner i hi
    exact ⟨d, hd, by rwa [setEvents_index]⟩

/-- The last entry is dropped with its channel. -/
theorem dropLast (h : Layout pollfds channels s) (hc : c ∈ s)
    (hlast : (channels c).index = (pollfds.length : ℤ) - 1) :
    Layout pollfds.dropLast channels (s.erase c) where
  entry d hd := by
    obtain ⟨hdc, hd⟩ := Finset.mem_erase.mp hd
    obtain ⟨i, e, hi, he, hof⟩ := h.entry d hd
    obtain ⟨hlt, -⟩ := List.getElem?_eq_some_iff.mp he
    have hne : (channels d).index ≠ (channels c).index := fun heq =>
      hdc (h.index_inj d hd c hc heq)
    refine ⟨i, e, hi, ?_, hof⟩
    rw [List.getElem?_dropLast, if_pos (by omega), he]
  index_inj d hd d' hd' heq :=
    h.index_inj d (Finset.mem_of_mem_erase hd) d' (Finset.mem_of_mem_erase hd') heq
  owner i hi := by
    rw [List.length_dropLast] at hi
    obtain ⟨d, hd, hdi⟩ := h.owner i (by omega)
    refine ⟨d, Finset.mem_erase.mpr ⟨?_, hd⟩, hdi⟩
    rintro rfl
    omega

/-- The last entry moves to the place of another one, and its channel learns of it. -/
theorem moveLast (h : Layout pollfds channels s) (hc : c ∈ s) (hd : d ∈ s)
    (hlast : (channels d).index = (pollfds.length : ℤ) - 1) (hdc : d ≠ c) {entry last : PollFd}
    (hentry : pollfds.getLast? = some last) :
    Layout ((pollfds.set (channels c).index.toNat last).set (pollfds.length - 1) entry).dropLast
      (setIndex channels d (channels c).index) (s.erase c) := by
  have hci := h.index_lt hc
  have hcd : (channels c).index ≠ (channels d).index := fun heq =>
    hdc (h.index_inj d hd c hc heq.symm)
  have hdrop : ((pollfds.set (channels c).index.toNat last).set (pollfds.length - 1)
      entry).dropLast = (pollfds.set (channels c).index.toNat last).dropLast := by
    rw [List.dropLast_eq_take, List.dropLast_eq_take, List.length_set, List.length_set,
      List.take_set_of_le (le_refl _)]
  rw [hdrop]
  refine ⟨fun x hx => ?_, fun x hx y hy heq => ?_, fun i hi => ?_⟩
  · obtain ⟨hxc, hx⟩ := Finset.mem_erase.mp hx
    obtain ⟨i, e, hi, he, hof⟩ := h.entry x hx
    obtain ⟨hlt, -⟩ := List.getElem?_eq_some_iff.mp he
    by_cases hxd : x = d
    · subst hxd
      have heq : e = last := by
        rw [List.getLast?_eq_getElem?, show pollfds.length - 1 = i by omega, he] at hentry
        exact Option.some.inj hentry
      subst heq
      refine ⟨(channels c).index.toNat, e, by simp [hci.1], ?_, isOf_setIndex.mpr hof⟩
      rw [List.getElem?_dropLast, List.length_set, if_pos (by omega),
        List.getElem?_set_self (by omega)]
    · have hne : (channels x).index ≠ (channels c).index := fun heq =>
        hxc (h.index_inj x hx c hc heq)
      have hne' : (channels x).index ≠ (channels d).index := fun heq =>
        hxd (h.index_inj x hx d hd heq)
      refine ⟨i, e, by rwa [setIndex_of_ne _ _ hxd], ?_, isOf_setIndex.mpr hof⟩
      rw [List.getElem?_dropLast, List.length_set, if_pos (by omega),
        List.getElem?_set_ne (by omega), he]
  · obtain ⟨hxc, hx⟩ := Finset.mem_erase.mp hx
    obtain ⟨hyc, hy⟩ := Finset.mem_erase.mp hy
    by_cases hxd : x = d <;> by_cases hyd : y = d
    · exact hxd.trans hyd.symm
    · subst hxd
      rw [setIndex_self, setIndex_of_ne _ _ hyd] at heq
      exact absurd (h.index_inj c hc y hy heq).symm hyc
    · subst hyd
      rw [setIndex_self, setIndex_of_ne _ _ hxd] at heq
      exact absurd (h.index_inj x hx c hc heq) hxc
    · rw [setIndex_of_ne _ _ hxd, setIndex_of_ne _ _ hyd] at heq
      exact h.index_inj x hx y hy heq
  · rw [List.length_dropLast, List.length_set] at hi
    by_cases hic : (channels c).index = i
    · exact ⟨d, Finset.mem_erase.mpr ⟨hdc, hd⟩, by simpa using hic⟩
    · obtain ⟨x, hx, hxi⟩ := h.owner i (by omega)
      have hxc : x ≠ c := by
        rintro rfl
        exact hic hxi
      have hxd : x ≠ d := by
        rintro rfl
        omega
      exact ⟨x, Finset.mem_erase.mpr ⟨hxc, hx⟩, by rwa [setIndex_of_ne _ _ hxd]⟩

end Layout

section

variable {fd : ι ↪ ℕ} {s : Finset ι} {poll : Poll ι} {c : ι}

omit [DecidableEq ι] in
/-- A packed poller is intact. -/
theorem Packed.intact (h : poll.Packed fd s) : poll.Intact s :=
  ⟨h.size_eq, h.holds, h.layout.entry, h.layout.index_inj⟩

omit [DecidableEq ι] in
/-- Registered channels have descriptors of their own. -/
theorem Packed.eq_of_fd_eq (h : poll.Packed fd s) {c d : ι}
    (heq : (poll.channels d).fd = (poll.channels c).fd) : d = c := by
  rw [h.fd_eq, h.fd_eq] at heq
  exact fd.injective (Int.ofNat.inj heq)

/-- A change of a channel that is not registered. -/
theorem Packed.setEvents (h : poll.Packed fd s) (hc : c ∉ s) (mask : EventMask) :
    Packed fd s { poll with channels := setEvents poll.channels c mask } where
  size_eq := h.size_eq
  holds := h.holds.congr fun d => setEvents_fd ..
  layout := h.layout.congr fun d hd => setEvents_of_ne _ _ (by
    rintro rfl
    exact hc hd)
  fd_eq d := (setEvents_fd ..).trans (h.fd_eq d)

/-- A new channel is packed behind the others. -/
theorem Packed.add (h : poll.Packed fd s) (hc : c ∉ s) : (poll.add c).Packed fd (insert c s) := by
  have hfd : ∀ d ∈ s, (poll.channels d).fd ≠ (poll.channels c).fd := by
    intro d hd heq
    obtain rfl := h.eq_of_fd_eq heq
    exact hc hd
  have hnew := h.holds.notMem hfd
  have hmap : poll.channelMap.insertNew (poll.channels c).fd c =
      poll.channelMap.insert (poll.channels c).fd (some c) := if_neg hnew
  have hkeys : (poll.channelMap.insert (poll.channels c).fd (some c)).keys =
      insert (poll.channels c).fd poll.channelMap.keys := by
    ext k
    simp [Finmap.mem_keys, Finmap.mem_insert]
  refine ⟨?_, ?_, ?_, fun d => (setIndex_fd ..).trans (h.fd_eq d)⟩
  · rw [Poll.add, hmap, hkeys, Finset.card_insert_of_notMem (by rwa [Finmap.mem_keys])]
    simp [h.size_eq]
  · rw [Poll.add, hmap]
    exact (h.holds.insert hfd).congr fun d => setIndex_fd ..
  · have hlayout := h.layout.push hc ⟨(poll.channels c).fd, (poll.channels c).events, 0⟩
      ⟨rfl, .inl rfl⟩
    simpa [Poll.add] using hlayout

/-- The first update of a channel appends its entry. -/
theorem Packed.update_new (h : poll.Packed fd s) (hc : c ∉ s)
    (hindex : (poll.channels c).index = -1) (mask : EventMask) :
    ∃ poll', poll.step (.update c mask) = .ok poll' ∧ poll'.Packed fd (insert c s) ∧
      ∀ d ≠ c, (poll'.channels d).index = (poll.channels d).index := by
  refine ⟨_, by rw [step, update, if_pos (by simp [hindex])], (h.setEvents hc mask).add hc,
    fun d hd => ?_⟩
  simp [Poll.add, hd]

/-- A later update rewrites the entry. -/
theorem Packed.update_registered (h : poll.Packed fd s) (hc : c ∈ s) (mask : EventMask) :
    ∃ poll', poll.step (.update c mask) = .ok poll' ∧ poll'.Packed fd s ∧
      ∀ d, (poll'.channels d).index = (poll.channels d).index := by
  have hindex := h.layout.index_lt hc
  refine ⟨{ poll with
    pollfds := poll.pollfds.set (poll.channels c).index.toNat
      (updatedEntry { poll.channels c with events := mask })
    channels := Reactor.setEvents poll.channels c mask }, ?_, ⟨?_, ?_, ?_, ?_⟩,
    fun d => setEvents_index ..⟩
  · simp only [step, update, setEvents_self]
    rw [if_neg (by omega), if_pos (by omega)]
  · rw [List.length_set]
    exact h.size_eq
  · exact h.holds.congr fun d => setEvents_fd ..
  · exact h.layout.rewrite hc mask
  · exact fun d => (setEvents_fd ..).trans (h.fd_eq d)

omit [DecidableEq ι] in
/-- The channel of the last entry, unless an update has marked it. -/
theorem Packed.last (h : poll.Packed fd s) {last : PollFd}
    (hlast : poll.pollfds.getLast? = some last)
    (hfd : last.fd ≠ -1) : ∃ d ∈ s, (poll.channels d).index = (poll.pollfds.length : ℤ) - 1 ∧
      poll.channelMap.lookup last.fd = some (some d) := by
  rw [List.getLast?_eq_getElem?] at hlast
  have hlength := (List.getElem?_eq_some_iff.mp hlast).1
  obtain ⟨d, hd, hdi⟩ := h.layout.owner _ hlength
  obtain ⟨i, entry, hi, hentry, -, hof⟩ := h.layout.entry d hd
  obtain rfl : i = poll.pollfds.length - 1 := by omega
  obtain rfl : entry = last := Option.some.inj (hentry.symm.trans hlast)
  have hentryFd := hof.resolve_right fun hnone => hfd hnone.1
  refine ⟨d, hd, by omega, ?_⟩
  rw [hentryFd]
  exact h.holds.lookup hd

/-- `erase` finds a registered channel. -/
theorem Packed.eraseFd (h : poll.Packed fd s) (hc : c ∈ s) (rest : Poll ι)
    (hmap : rest.channelMap = poll.channelMap)
    (hlength : rest.pollfds.length = poll.pollfds.length - 1)
    (hlayout : Layout rest.pollfds rest.channels (s.erase c))
    (hfd : ∀ d, (rest.channels d).fd = (poll.channels d).fd) :
    ∃ poll', rest.eraseFd (poll.channels c).fd = .ok poll' ∧ poll'.Packed fd (s.erase c) ∧
      poll'.channels = rest.channels := by
  have hmem := h.holds.mem hc
  refine ⟨{ rest with channelMap := poll.channelMap.erase (poll.channels c).fd }, ?_,
    ⟨?_, ?_, hlayout, fun d => (hfd d).trans (h.fd_eq d)⟩, rfl⟩
  · rw [Poll.eraseFd, hmap, if_pos hmem]
  · rw [Finmap.keys_erase, Finset.card_erase_of_mem (Finmap.mem_keys.mpr hmem), hlength, h.size_eq]
  · exact (h.holds.erase fun d _ heq => h.eq_of_fd_eq heq).congr hfd

/-- The entry of a removed channel is dropped if the last entry is its own or carries a
descriptor. -/
theorem Packed.remove (h : poll.Packed fd s) (hc : c ∈ s)
    (hguard : ∀ last ∈ poll.pollfds.getLast?, last.fd = -1 →
      (poll.channels c).index = (poll.pollfds.length : ℤ) - 1) :
    ∃ poll', poll.remove c = .ok poll' ∧ poll'.Packed fd (s.erase c) ∧
      ∀ d ∉ s, (poll'.channels d).index = (poll.channels d).index := by
  have hindex := h.layout.index_lt hc
  have hne : poll.pollfds ≠ [] := by
    rintro hnil
    simp only [hnil, List.length_nil] at hindex
    omega
  have hfd : ¬ (poll.channels c).fd < 0 := by
    rw [h.fd_eq]
    omega
  rw [Poll.remove, if_neg hne, if_neg hfd]
  by_cases hlast : (poll.channels c).index = (poll.pollfds.length : ℤ) - 1
  · obtain ⟨poll', hok, hpacked, hchannels⟩ := h.eraseFd hc { poll with
      pollfds := poll.pollfds.dropLast } rfl List.length_dropLast (h.layout.dropLast hc hlast)
      fun d => rfl
    refine ⟨poll', ?_, hpacked, fun d _ => by rw [hchannels]⟩
    rw [dropEntry, if_pos hlast]
    exact hok
  · obtain ⟨last, hback⟩ := Option.ne_none_iff_exists'.mp (List.getLast?_eq_none_iff.not.mpr hne)
    obtain ⟨d, hd, hdi, hlookup⟩ := h.last hback fun hmarked => hlast (hguard last hback hmarked)
    have hdc : d ≠ c := by
      rintro rfl
      exact hlast hdi
    have hlt : (poll.channels c).index.toNat < poll.pollfds.length := by omega
    obtain ⟨poll', hok, hpacked, hchannels⟩ := h.eraseFd hc { poll with
      pollfds := ((poll.pollfds.set (poll.channels c).index.toNat last).set
        (poll.pollfds.length - 1) poll.pollfds[(poll.channels c).index.toNat]).dropLast
      channels := setIndex poll.channels d (poll.channels c).index } rfl (by simp)
      (h.layout.moveLast hc hd hdi hdc hback) fun d => setIndex_fd ..
    refine ⟨poll', ?_, hpacked, fun x hx => ?_⟩
    swap
    · have hxd : x ≠ d := by
        rintro rfl
        exact hx hd
      rw [hchannels]
      exact congrArg Channel.index (setIndex_of_ne _ _ hxd)
    simp only [dropEntry, if_neg hlast, if_neg hindex.1.not_gt, List.getElem?_eq_getElem hlt,
      hback, setIndexOf, hlookup, ok_bind]
    exact hok

/-- Otherwise `remove` looks up the descriptor -1, which no channel has. -/
theorem Packed.remove_faults (h : poll.Packed fd s) (hc : c ∈ s) {last : PollFd}
    (hback : poll.pollfds.getLast? = some last) (hfd : last.fd = -1)
    (hindex : (poll.channels c).index ≠ (poll.pollfds.length : ℤ) - 1) :
    poll.remove c = .error .nullDereference := by
  have hbound := h.layout.index_lt hc
  have hne : poll.pollfds ≠ [] := by
    rintro hnil
    simp [hnil] at hback
  have hlt : (poll.channels c).index.toNat < poll.pollfds.length := by omega
  have hlookup : poll.channelMap.lookup last.fd = none := by
    rw [hfd, Finmap.lookup_eq_none]
    intro hmem
    obtain ⟨p, hp⟩ := Finmap.mem_iff.mp hmem
    obtain ⟨d, -, hd, -⟩ := (h.holds _ _).mp hp
    rw [h.fd_eq] at hd
    omega
  rw [Poll.remove, if_neg hne, if_neg (by rw [h.fd_eq]; omega)]
  simp only [dropEntry, if_neg hindex, if_neg hbound.1.not_gt, List.getElem?_eq_getElem hlt,
    hback, setIndexOf, hlookup, error_bind]

/-! ## Runs -/

/-- The invariant of a run: a channel without calls has no position yet. -/
structure Reached (fd : ι ↪ ℕ) (t : List (PollerOp ι) × Poll ι) : Prop where
  packed : t.2.Packed fd (registered t.1)
  fresh : ∀ c ∉ registered t.1, .remove c ∉ t.1 → (t.2.channels c).index = -1

/-- A new poller has registered nothing. -/
theorem reached_init : Reached fd ([], init fd) where
  packed :=
    { size_eq := rfl
      holds := by simp [ChannelMap.Holds, init]
      layout := ⟨by simp, by simp, by simp [init]⟩
      fd_eq := fun _ => rfl }
  fresh _ _ _ := rfl

/-- A call in order that meets no marked entry keeps the invariant. -/
theorem Reached.step {t : List (PollerOp ι) × Poll ι} (h : Reached fd t) (op : PollerOp ι)
    (hlife : Lifecycle t op) (hguard : LastEntryKnown t op) :
    ∃ poll', t.2.step op = .ok poll' ∧ Reached fd (t.1 ++ [op], poll') := by
  obtain ⟨done, poll⟩ := t
  cases op with
  | update c mask =>
    by_cases hc : c ∈ registered done
    · obtain ⟨poll', hok, hpacked, hindex⟩ := h.packed.update_registered hc mask
      refine ⟨poll', hok, by simpa [register, hc] using hpacked, fun d hd hremove => ?_⟩
      rw [hindex]
      exact h.fresh d (by simp_all [register]) (by simp_all)
    · obtain ⟨poll', hok, hpacked, hindex⟩ :=
        h.packed.update_new hc (h.fresh c hc hlife) mask
      refine ⟨poll', hok, by simpa [register] using hpacked, fun d hd hremove => ?_⟩
      rw [hindex d (by simp_all [register])]
      exact h.fresh d (by simp_all [register]) (by simp_all)
  | remove c =>
    obtain ⟨poll', hok, hpacked, hindex⟩ := h.packed.remove hlife hguard
    refine ⟨poll', hok, by simpa [register] using hpacked, fun d hd hremove => ?_⟩
    have hd' : d ∉ registered done := by simp_all [register]
    rw [hindex d hd']
    exact h.fresh d hd' (by simp_all)

/-- In a run that keeps to the life of each channel, every call leaves the registry intact
if and only if no `remove` of another channel meets a last entry that is marked -1. -/
theorem registryIntact_iff_lastEntryKnown (fd : ι ↪ ℕ) {ops : List (PollerOp ι)}
    (h : Guarded (withHistory Poll.step) Lifecycle ([], init fd) ops) :
    Safe (withHistory Poll.step) (fun t => t.2.Intact (registered t.1)) ([], init fd) ops ↔
      Guarded (withHistory Poll.step) LastEntryKnown ([], init fd) ops := by
  refine along_congr_of_guarded (Reached fd) ?_ ?_ reached_init h
  · intro t op ht hlife
    constructor
    · rintro ⟨u, hok, -⟩
      cases op with
      | update c mask => trivial
      | remove c =>
        intro last hback hfd
        by_contra hindex
        obtain ⟨poll', hremove, -⟩ := withHistory_eq_ok.mp hok
        rw [step, ht.packed.remove_faults hlife hback hfd hindex] at hremove
        cases hremove
    · intro hguard
      obtain ⟨poll', hok, hreached⟩ := ht.step op hlife hguard
      exact ⟨_, withHistory_eq_ok.mpr ⟨poll', hok, rfl⟩, hreached.packed.intact⟩
  · intro t op u ht hlife hguard hok
    obtain ⟨poll', hok', hreached⟩ := ht.step op hlife hguard
    obtain ⟨poll'', hok'', rfl⟩ := withHistory_eq_ok.mp hok
    obtain rfl := Except.ok.inj (hok'.symm.trans hok'')
    exact hreached

end

/-- Two channels: the one whose entry is marked goes first. -/
theorem registryIntact_six_calls :
    Safe (withHistory Poll.step) (fun t => t.2.Intact (registered t.1))
      ([], init (Function.Embedding.refl ℕ))
      [.update 5 kRead, .update 7 kRead, .update 5 kNone, .update 7 kNone, .remove 7, .remove 5] :=
  (registryIntact_iff_lastEntryKnown _ (by decide +kernel)).mpr (by decide +kernel)

/-- Two channels that close in one iteration: both lose their interest, and the removal
of the first one looks up the descriptor -1 of the other. -/
theorem not_registryIntact :
    Guarded (withHistory Poll.step) Lifecycle ([], init (Function.Embedding.refl ℕ))
      [.update 5 kRead, .update 7 kRead, .update 5 kNone, .update 7 kNone, .remove 5] ∧
    ¬ Safe (withHistory Poll.step) (fun t => t.2.Intact (registered t.1))
      ([], init (Function.Embedding.refl ℕ))
      [.update 5 kRead, .update 7 kRead, .update 5 kNone, .update 7 kNone, .remove 5] := by
  refine ⟨by decide +kernel, fun h => ?_⟩
  obtain ⟨t, ht⟩ := h.run_ok
  have hcode : (run (withHistory Poll.step) ([], init (Function.Embedding.refl ℕ))
      [.update 5 kRead, .update 7 kRead, .update 5 kNone, .update 7 kNone, .remove 5]).map
        (fun _ => ()) = .error .nullDereference := by
    decide +kernel
  rw [ht] at hcode
  cases hcode

end Poll

end Reactor
