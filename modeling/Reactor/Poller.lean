import Mathlib.Data.Finmap
import Mathlib.Data.Finset.Basic
import Reactor.Channel
import Reactor.Machine

/-!
# Pollers

A poller keeps a map from descriptors to channels. The setters of a channel change its
mask and call `update`; `remove` ends the registration. The registered channels are those
whose last call was an update: this is what `channelMap_` and the tables of the system are
compared with.
-/

namespace Reactor

variable {ι : Type*}

/-- `ChannelMap`, from descriptors to pointers to channels; `none` is a null pointer. -/
abbrev ChannelMap (ι : Type*) := Finmap fun _ : ℤ => Option ι

/-- A call of a poller. -/
inductive PollerOp (ι : Type*) where
  /-- A setter of a channel changes its mask and calls `update`. -/
  | update (c : ι) (mask : EventMask)
  | remove (c : ι)
  deriving DecidableEq, Repr

/-- The channel that the poller is called for. -/
def PollerOp.channel : PollerOp ι → ι
  | .update c _ | .remove c => c

/-- The channels before the first call. -/
def newChannels (fd : ι ↪ ℕ) (c : ι) : Channel := { fd := fd c }

/-- The map holds exactly the registered channels, each under its own descriptor. -/
def ChannelMap.Holds (m : ChannelMap ι) (channels : ι → Channel) (s : Finset ι) : Prop :=
  ∀ fd p, m.lookup fd = some p ↔ ∃ c ∈ s, (channels c).fd = fd ∧ p = some c

namespace ChannelMap.Holds

variable {m : ChannelMap ι} {channels channels' : ι → Channel} {s : Finset ι} {c : ι}

/-- The map depends on the descriptors of the channels only. -/
theorem congr_on (h : m.Holds channels s) (hfd : ∀ c ∈ s, (channels' c).fd = (channels c).fd) :
    m.Holds channels' s := by
  intro fd p
  rw [h fd p]
  constructor
  · rintro ⟨c, hc, hcfd, hp⟩
    exact ⟨c, hc, (hfd c hc).trans hcfd, hp⟩
  · rintro ⟨c, hc, hcfd, hp⟩
    exact ⟨c, hc, (hfd c hc).symm.trans hcfd, hp⟩

/-- The map does not depend on anything but the descriptors. -/
theorem congr (h : m.Holds channels s) (hfd : ∀ c, (channels' c).fd = (channels c).fd) :
    m.Holds channels' s :=
  h.congr_on fun c _ => hfd c

/-- A registered channel is found under its descriptor. -/
theorem lookup (h : m.Holds channels s) (hc : c ∈ s) :
    m.lookup (channels c).fd = some (some c) :=
  (h _ _).mpr ⟨c, hc, rfl, rfl⟩

/-- The descriptor of a registered channel is in the map. -/
theorem mem (h : m.Holds channels s) (hc : c ∈ s) : (channels c).fd ∈ m :=
  Finmap.mem_of_lookup_eq_some (h.lookup hc)

/-- Registered channels have different descriptors. -/
theorem eq_of_fd_eq {d : ι} (h : m.Holds channels s) (hc : c ∈ s) (hd : d ∈ s)
    (hfd : (channels d).fd = (channels c).fd) : d = c := by
  have hlookup := h.lookup hd
  rw [hfd, h.lookup hc] at hlookup
  exact (Option.some.inj (Option.some.inj hlookup)).symm

/-- A descriptor that no registered channel has is not in the map. -/
theorem notMem (h : m.Holds channels s) (hfd : ∀ d ∈ s, (channels d).fd ≠ (channels c).fd) :
    (channels c).fd ∉ m := by
  intro hmem
  obtain ⟨p, hp⟩ := Finmap.mem_iff.mp hmem
  obtain ⟨d, hd, hdc, -⟩ := (h _ _).mp hp
  exact hfd d hd hdc

end ChannelMap.Holds

variable [DecidableEq ι]

/-- The setters of `Channel`, up to the call of `update`. -/
def setEvents (channels : ι → Channel) (c : ι) (mask : EventMask) : ι → Channel :=
  Function.update channels c { channels c with events := mask }

/-- `Channel::setIndex`. -/
def setIndex (channels : ι → Channel) (c : ι) (index : ℤ) : ι → Channel :=
  Function.update channels c { channels c with index }

/-- `Channel::setRevents`. -/
def setRevents (channels : ι → Channel) (c : ι) (revents : EventMask) : ι → Channel :=
  Function.update channels c { channels c with revents }

/-- `unordered_map::insert`, which keeps an entry that exists. -/
def ChannelMap.insertNew (m : ChannelMap ι) (fd : ℤ) (c : ι) : ChannelMap ι :=
  if fd ∈ m then m else m.insert fd (some c)

/-- The effect of a call on the set of registered channels. -/
def register (s : Finset ι) : PollerOp ι → Finset ι
  | .update c _ => insert c s
  | .remove c => s.erase c

/-- The channels that a sequence of calls leaves registered. -/
def registered (done : List (PollerOp ι)) : Finset ι := done.foldl register ∅

/-- Without calls nothing is registered. -/
@[simp] theorem registered_nil : registered ([] : List (PollerOp ι)) = ∅ := rfl

/-- The calls are counted one by one. -/
@[simp] theorem registered_append (done : List (PollerOp ι)) (op : PollerOp ι) :
    registered (done ++ [op]) = register (registered done) op := by
  simp [registered]

section

variable (channels : ι → Channel) (c d : ι) (mask : EventMask) (index : ℤ)

/-- The interest of the channel is set. -/
@[simp] theorem setEvents_self :
    setEvents channels c mask c = { channels c with events := mask } :=
  Function.update_self ..

/-- The index of the channel is set. -/
@[simp] theorem setIndex_self : setIndex channels c index c = { channels c with index } :=
  Function.update_self ..

variable {c d}

/-- The interest of other channels stays. -/
@[simp] theorem setEvents_of_ne (h : d ≠ c) : setEvents channels c mask d = channels d :=
  Function.update_of_ne h ..

/-- The index of other channels stays. -/
@[simp] theorem setIndex_of_ne (h : d ≠ c) : setIndex channels c index d = channels d :=
  Function.update_of_ne h ..

/-- Setting an interest changes no descriptor. -/
@[simp] theorem setEvents_fd : (setEvents channels c mask d).fd = (channels d).fd := by
  by_cases h : d = c
  · subst h
    simp
  · simp [h]

/-- Setting an interest changes no index. -/
@[simp] theorem setEvents_index : (setEvents channels c mask d).index = (channels d).index := by
  by_cases h : d = c
  · subst h
    simp
  · simp [h]

/-- Setting an index changes no descriptor. -/
@[simp] theorem setIndex_fd : (setIndex channels c index d).fd = (channels d).fd := by
  by_cases h : d = c
  · subst h
    simp
  · simp [h]

/-- Setting an index changes no interest. -/
@[simp] theorem setIndex_events : (setIndex channels c index d).events = (channels d).events := by
  by_cases h : d = c
  · subst h
    simp
  · simp [h]

/-- Setting what has been reported changes no descriptor. -/
@[simp] theorem setRevents_fd : (setRevents channels c mask d).fd = (channels d).fd := by
  by_cases h : d = c
  · subst h
    simp [setRevents]
  · simp [setRevents, h]

end

namespace ChannelMap.Holds

variable {m : ChannelMap ι} {channels : ι → Channel} {s : Finset ι} {c : ι}

/-- A new channel has a descriptor of its own. -/
theorem insert (h : m.Holds channels s) (hfd : ∀ d ∈ s, (channels d).fd ≠ (channels c).fd) :
    Holds (Finmap.insert (channels c).fd (some c) m) channels (insert c s) := by
  intro fd p
  by_cases hk : fd = (channels c).fd
  · subst hk
    rw [Finmap.lookup_insert]
    constructor
    · intro hp
      exact ⟨c, Finset.mem_insert_self c s, rfl, (Option.some.inj hp).symm⟩
    · rintro ⟨d, hd, hdc, rfl⟩
      rcases Finset.mem_insert.mp hd with rfl | hd
      · rfl
      · exact absurd hdc (hfd d hd)
  · rw [Finmap.lookup_insert_of_ne m hk, h fd p]
    constructor
    · rintro ⟨d, hd, hdc⟩
      exact ⟨d, Finset.mem_insert_of_mem hd, hdc⟩
    · rintro ⟨d, hd, rfl, rfl⟩
      rcases Finset.mem_insert.mp hd with rfl | hd
      · exact absurd rfl hk
      · exact ⟨d, hd, rfl, rfl⟩

/-- A channel that is alone with its descriptor can be erased from the map. -/
theorem erase (h : m.Holds channels s)
    (hfd : ∀ d ∈ s, (channels d).fd = (channels c).fd → d = c) :
    Holds (Finmap.erase (channels c).fd m) channels (s.erase c) := by
  intro fd p
  by_cases hk : fd = (channels c).fd
  · subst hk
    rw [Finmap.lookup_erase]
    constructor
    · intro hp
      cases hp
    · rintro ⟨d, hd, hdc, -⟩
      exact absurd (hfd d (Finset.mem_of_mem_erase hd) hdc) (Finset.ne_of_mem_erase hd)
  · rw [Finmap.lookup_erase_ne hk, h fd p]
    constructor
    · rintro ⟨d, hd, rfl, rfl⟩
      refine ⟨d, Finset.mem_erase.mpr ⟨?_, hd⟩, rfl, rfl⟩
      rintro rfl
      exact hk rfl
    · rintro ⟨d, hd, hdc⟩
      exact ⟨d, Finset.mem_of_mem_erase hd, hdc⟩

end ChannelMap.Holds

end Reactor
