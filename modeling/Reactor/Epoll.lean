import Reactor.Lib.Run
import Reactor.Poller

/-!
# The poller of `epoll`

The system keeps the interest set that `epoll_ctl` changes; `Epoll` shadows it by the map
of channels and an index in every channel, which says whether the channel is in the set.
An `EPOLL_CTL_ADD` is issued whatever the mask, and `remove` issues no `EPOLL_CTL_DEL`:
the two agree as long as channels are added with interest and removed without.
-/

namespace Reactor

open Transition

/-- The index of a channel that has never been added. -/
def kNew : ℤ := -1

/-- The index of a channel that the kernel watches. -/
def kAdded : ℤ := 0

/-- The index of a channel that the kernel has ceased to watch. -/
def kDeleted : ℤ := 2

/-- `struct epoll_event`, with the pointer in `data`. -/
structure EpollEvent (ι : Type*) where
  events : EventMask
  ptr : ι
  deriving DecidableEq, Repr

/-- The operations of `epoll_ctl`. -/
inductive EpollCtl where
  | add
  | mod
  | del
  deriving DecidableEq, Repr

/-- What ends a run of `Epoll`. -/
inductive EpollFault where
  | assertFailed
  /-- `epoll_ctl` fails, and `LOG_SYSFATAL` aborts. -/
  | epollCtlFailed
  deriving DecidableEq, Repr

/-- The interest set of the system. -/
abbrev InterestSet (ι : Type*) := ℤ → Option (EpollEvent ι)

variable {ι : Type*}

/-- `epoll_ctl`, which fails with `EEXIST` or `ENOENT`. -/
def InterestSet.ctl (interest : InterestSet ι) (operation : EpollCtl) (fd : ℤ)
    (ep : EpollEvent ι) : Option (InterestSet ι) :=
  match operation, interest fd with
  | .add, none => some (Function.update interest fd (some ep))
  | .add, some _ => none
  | .mod, some _ => some (Function.update interest fd (some ep))
  | .mod, none => none
  | .del, some _ => some (Function.update interest fd none)
  | .del, none => none

/-- `Epoll`, with the channels that it points to and the interest set of `epollfd_`. -/
structure Epoll (ι : Type*) where
  channelMap : ChannelMap ι := ∅
  channels : ι → Channel
  interest : InterestSet ι := fun _ => none

namespace Epoll

/-- `Epoll::update(channel, operation)`. -/
def control (epoll : Epoll ι) (c : ι) (operation : EpollCtl) : Except EpollFault (Epoll ι) :=
  let channel := epoll.channels c
  if channel.fd ∈ epoll.channelMap then
    match epoll.interest.ctl operation channel.fd ⟨channel.events, c⟩ with
    | some interest => .ok { epoll with interest }
    | none => .error .epollCtlFailed
  else
    .error .assertFailed

/-- Adding a descriptor that the kernel does not watch succeeds. -/
theorem control_add {epoll : Epoll ι} {c : ι} (hmem : (epoll.channels c).fd ∈ epoll.channelMap)
    (hnone : epoll.interest (epoll.channels c).fd = none) :
    epoll.control c .add = .ok { epoll with
      interest := Function.update epoll.interest (epoll.channels c).fd
        (some ⟨(epoll.channels c).events, c⟩) } := by
  rw [control, if_pos hmem]
  simp only [InterestSet.ctl, hnone]

/-- A descriptor in the interest set is changed or deleted. -/
theorem control_present {epoll : Epoll ι} {c : ι} {operation : EpollCtl} {ep : EpollEvent ι}
    (hne : operation ≠ .add) (hmem : (epoll.channels c).fd ∈ epoll.channelMap)
    (hsome : epoll.interest (epoll.channels c).fd = some ep) :
    epoll.control c operation = .ok { epoll with
      interest := Function.update epoll.interest (epoll.channels c).fd
        (if operation = .mod then some ⟨(epoll.channels c).events, c⟩ else none) } := by
  rw [control, if_pos hmem]
  cases operation with
  | add => exact absurd rfl hne
  | mod => simp [InterestSet.ctl, hsome]
  | del => simp [InterestSet.ctl, hsome]

variable [DecidableEq ι]

/-- A channel that is not in the interest set is added to it. -/
def addChannel (epoll : Epoll ι) (c : ι) : Except EpollFault (Epoll ι) :=
  let channel := epoll.channels c
  let channels := setIndex epoll.channels c kAdded
  if channel.index = kNew then
    if channel.fd ∈ epoll.channelMap then
      .error .assertFailed
    else
      { epoll with
        channels
        channelMap := epoll.channelMap.insert channel.fd (some c) }.control c .add
  else if channel.fd ∈ epoll.channelMap then
    { epoll with channels }.control c .add
  else
    .error .assertFailed

/-- A channel that is in the interest set is changed or, without interest, deleted. -/
def changeChannel (epoll : Epoll ι) (c : ι) : Except EpollFault (Epoll ι) :=
  if (epoll.channels c).isNoneEvent then do
    let epoll ← epoll.control c .del
    return { epoll with channels := setIndex epoll.channels c kDeleted }
  else
    epoll.control c .mod

/-- `Epoll::update`. -/
def update (epoll : Epoll ι) (c : ι) : Except EpollFault (Epoll ι) :=
  let index := (epoll.channels c).index
  if index = kNew ∨ index = kDeleted then
    epoll.addChannel c
  else if index = kAdded then
    epoll.changeChannel c
  else
    .error .assertFailed

/-- An added channel is changed. -/
theorem update_of_kAdded {epoll : Epoll ι} {c : ι} (h : (epoll.channels c).index = kAdded) :
    epoll.update c = epoll.changeChannel c := by
  rw [update]
  simp only [h]
  rw [if_neg (by decide), if_pos trivial]

/-- `Epoll::remove`. -/
def remove (epoll : Epoll ι) (c : ι) : Except EpollFault (Epoll ι) :=
  let channel := epoll.channels c
  if channel.fd ∈ epoll.channelMap ∧ (channel.index = kDeleted ∨ channel.index = kAdded) then
    .ok { epoll with channelMap := epoll.channelMap.erase channel.fd }
  else
    .error .assertFailed

/-- `Epoll::fillActiveChannel` for the events that `epoll_wait` has stored. -/
def fillActiveChannel (epoll : Epoll ι) :
    List (EpollEvent ι) → Except EpollFault (Epoll ι × List ι)
  | [] => .ok (epoll, [])
  | event :: events =>
    if (epoll.channels event.ptr).fd ∈ epoll.channelMap then do
      let marked := setRevents epoll.channels event.ptr event.events
      let (epoll, active) ← fillActiveChannel { epoll with channels := marked } events
      return (epoll, event.ptr :: active)
    else
      .error .assertFailed

/-- A call of the poller. -/
def step (epoll : Epoll ι) : PollerOp ι → Except EpollFault (Epoll ι)
  | .update c mask => { epoll with channels := setEvents epoll.channels c mask }.update c
  | .remove c => epoll.remove c

/-- The poller before the first call. -/
def init (fd : ι ↪ ℕ) : Epoll ι := { channels := newChannels fd }

/-- What the system should know of a descriptor: the mask of its channel in
`channelMap_`, if the channel has interest. -/
def wanted (epoll : Epoll ι) (fd : ℤ) : Option EventMask :=
  match epoll.channelMap.lookup fd with
  | some (some c) =>
    if (epoll.channels c).isNoneEvent then none else some (epoll.channels c).events
  | _ => none

/-- The interest set is that of the channels in the map, and the lookups of whatever
`epoll_wait` reports succeed. -/
structure Exact (epoll : Epoll ι) : Prop where
  interest_eq : ∀ fd, (epoll.interest fd).map EpollEvent.events = epoll.wanted fd
  fillActiveChannel_ok : ∀ ready : List (EpollEvent ι),
    (∀ event ∈ ready, ∃ fd ep, epoll.interest fd = some ep ∧ event.ptr = ep.ptr) →
      ∃ r, epoll.fillActiveChannel ready = .ok r

/-- `remove` is called for registered channels. -/
def RemovesRegistered : List (PollerOp ι) × Epoll ι → PollerOp ι → Prop
  | _, .update _ _ => True
  | (done, _), .remove c => c ∈ registered done

/-- A removed channel is not updated again, a channel without interest is given some by
its next update, and a channel is removed without interest. -/
def Paired : List (PollerOp ι) × Epoll ι → PollerOp ι → Prop
  | (done, epoll), .update c mask => .remove c ∉ done ∧
    (mask = kNone → c ∈ registered done ∧ (epoll.channels c).isNoneEvent = false)
  | (_, epoll), .remove c => (epoll.channels c).isNoneEvent = true

instance (t : List (PollerOp ι) × Epoll ι) (op : PollerOp ι) :
    Decidable (RemovesRegistered t op) :=
  match op with
  | .update _ _ => .isTrue trivial
  | .remove c => inferInstanceAs (Decidable (c ∈ registered t.1))

instance (t : List (PollerOp ι) × Epoll ι) (op : PollerOp ι) : Decidable (Paired t op) :=
  match op with
  | .update c mask => inferInstanceAs (Decidable (.remove c ∉ t.1 ∧
      (mask = kNone → c ∈ registered t.1 ∧ (t.2.channels c).isNoneEvent = false)))
  | .remove c => inferInstanceAs (Decidable ((t.2.channels c).isNoneEvent = true))

/-- The index and the interest set agree with the mask of every registered channel. -/
structure Shadowed (fd : ι ↪ ℕ) (s : Finset ι) (epoll : Epoll ι) : Prop where
  holds : epoll.channelMap.Holds epoll.channels s
  fd_eq : ∀ c, (epoll.channels c).fd = fd c
  index_eq : ∀ c ∈ s, (epoll.channels c).index =
    if (epoll.channels c).isNoneEvent then kDeleted else kAdded
  registered_eq : ∀ c ∈ s, epoll.interest (fd c) =
    if (epoll.channels c).isNoneEvent then none else some ⟨(epoll.channels c).events, c⟩
  unregistered_eq : ∀ k : ℤ, (∀ c ∈ s, fd c ≠ k) → epoll.interest k = none

section

variable {fd : ι ↪ ℕ} {s : Finset ι} {epoll : Epoll ι} {c : ι}

/-- The lookups depend on the descriptors of the channels only. -/
theorem fillActiveChannel_ok (ready : List (EpollEvent ι)) (epoll : Epoll ι)
    (h : ∀ event ∈ ready, (epoll.channels event.ptr).fd ∈ epoll.channelMap) :
    ∃ r, epoll.fillActiveChannel ready = .ok r := by
  induction ready generalizing epoll with
  | nil => exact ⟨_, rfl⟩
  | cons event ready ih =>
    obtain ⟨r, hr⟩ := ih { epoll with
      channels := setRevents epoll.channels event.ptr event.events }
      (by simpa using fun e he => h e (List.mem_cons_of_mem event he))
    refine ⟨(r.1, event.ptr :: r.2), ?_⟩
    simp only [fillActiveChannel, if_pos (h event List.mem_cons_self), hr, ok_bind, pure_eq_ok]

/-- In a shadowed state the interest set is what it should be. -/
theorem Shadowed.exact (h : epoll.Shadowed fd s) : epoll.Exact where
  interest_eq k := by
    by_cases hk : ∀ c ∈ s, (fd c : ℤ) ≠ k
    swap
    · obtain ⟨c, hc, rfl⟩ : ∃ c ∈ s, (fd c : ℤ) = k := by simpa using hk
      have hlookup := h.holds.lookup hc
      rw [h.fd_eq] at hlookup
      rw [wanted, hlookup, h.registered_eq c hc]
      dsimp only
      split <;> rfl
    · have hlookup : epoll.channelMap.lookup k = none := by
        rw [Finmap.lookup_eq_none]
        intro hmem
        obtain ⟨p, hp⟩ := Finmap.mem_iff.mp hmem
        obtain ⟨d, hd, hdk, -⟩ := (h.holds _ _).mp hp
        exact hk d hd ((h.fd_eq d).symm.trans hdk)
      rw [h.unregistered_eq k hk, wanted, hlookup]
      rfl
  fillActiveChannel_ok ready hready := by
    refine Epoll.fillActiveChannel_ok ready _ fun event hevent => ?_
    obtain ⟨k, ep, hep, hptr⟩ := hready event hevent
    by_cases hk : ∀ c ∈ s, (fd c : ℤ) ≠ k
    swap
    · obtain ⟨c, hc, rfl⟩ : ∃ c ∈ s, (fd c : ℤ) = k := by simpa using hk
      rw [h.registered_eq c hc] at hep
      split at hep
      · cases hep
      · obtain rfl := Option.some.inj hep
        rw [hptr]
        exact h.holds.mem hc
    · rw [h.unregistered_eq k hk] at hep
      cases hep

/-- A call concerns one channel and its descriptor. -/
theorem Shadowed.of_local (h : epoll.Shadowed fd s) {epoll' : Epoll ι} {s' : Finset ι} (c : ι)
    (hmem : ∀ d ≠ c, (d ∈ s' ↔ d ∈ s)) (hholds : epoll'.channelMap.Holds epoll'.channels s')
    (hchannels : ∀ d ≠ c, epoll'.channels d = epoll.channels d)
    (hfd : (epoll'.channels c).fd = (epoll.channels c).fd)
    (hinterest : ∀ k ≠ (fd c : ℤ), epoll'.interest k = epoll.interest k)
    (hhere : c ∈ s' → (epoll'.channels c).index =
        (if (epoll'.channels c).isNoneEvent then kDeleted else kAdded) ∧
      epoll'.interest (fd c) =
        if (epoll'.channels c).isNoneEvent then none else some ⟨(epoll'.channels c).events, c⟩)
    (hgone : c ∉ s' → epoll'.interest (fd c) = none) : epoll'.Shadowed fd s' where
  holds := hholds
  fd_eq d := by
    by_cases hd : d = c
    · subst hd
      rw [hfd, h.fd_eq]
    · rw [hchannels d hd, h.fd_eq]
  index_eq d hd := by
    by_cases hdc : d = c
    · subst hdc
      exact (hhere hd).1
    · rw [hchannels d hdc]
      exact h.index_eq d ((hmem d hdc).mp hd)
  registered_eq d hd := by
    by_cases hdc : d = c
    · subst hdc
      exact (hhere hd).2
    · have hk : (fd d : ℤ) ≠ fd c := fun heq => hdc (fd.injective (Int.ofNat.inj heq))
      rw [hchannels d hdc, hinterest _ hk]
      exact h.registered_eq d ((hmem d hdc).mp hd)
  unregistered_eq k hk := by
    by_cases hkc : k = fd c
    · subst hkc
      exact hgone fun hc => hk c hc rfl
    · rw [hinterest k hkc]
      refine h.unregistered_eq k fun d hd => ?_
      by_cases hdc : d = c
      · subst hdc
        exact fun heq => hkc heq.symm
      · exact hk d ((hmem d hdc).mpr hd)

/-- A call that changes a registered channel and its entry. -/
theorem Shadowed.replace (h : epoll.Shadowed fd s) (hc : c ∈ s) {channels : ι → Channel}
    {entry : Option (EpollEvent ι)} (hfd : ∀ d, (channels d).fd = (epoll.channels d).fd)
    (hother : ∀ d ≠ c, channels d = epoll.channels d)
    (hhere : (channels c).index = (if (channels c).isNoneEvent then kDeleted else kAdded) ∧
      entry = if (channels c).isNoneEvent then none else some ⟨(channels c).events, c⟩) :
    Shadowed fd s { epoll with
      channels, interest := Function.update epoll.interest (fd c) entry } :=
  h.of_local c (fun _ _ => Iff.rfl) (h.holds.congr hfd) hother (hfd c)
    (fun _ hk => Function.update_of_ne hk ..)
    (fun _ => ⟨hhere.1, (Function.update_self ..).trans hhere.2⟩) fun hgone => absurd hc hgone

omit [DecidableEq ι] in
/-- Registered channels have descriptors of their own. -/
theorem Shadowed.eq_of_fd_eq (h : epoll.Shadowed fd s) {c d : ι}
    (heq : (epoll.channels d).fd = (epoll.channels c).fd) : d = c := by
  rw [h.fd_eq, h.fd_eq] at heq
  exact fd.injective (Int.ofNat.inj heq)

omit [DecidableEq ι] in
/-- The descriptor of a channel that is not registered is not in the map. -/
theorem Shadowed.notMem (h : epoll.Shadowed fd s) (hc : c ∉ s) :
    (epoll.channels c).fd ∉ epoll.channelMap := by
  refine h.holds.notMem fun d hd heq => ?_
  obtain rfl := h.eq_of_fd_eq heq
  exact hc hd

omit [DecidableEq ι] in
/-- The descriptor of an unregistered channel is not in the interest set. -/
theorem Shadowed.interest_eq_none (h : epoll.Shadowed fd s) (hc : c ∉ s) :
    epoll.interest (fd c) = none := by
  refine h.unregistered_eq _ fun d hd heq => ?_
  obtain rfl := fd.injective (Int.ofNat.inj heq)
  exact hc hd

/-! ## Calls -/

/-- The update of a channel that is new or has no interest issues an `EPOLL_CTL_ADD`. -/
theorem Shadowed.update_add (h : epoll.Shadowed fd s) (mask : EventMask)
    (hc : c ∉ s ∧ (epoll.channels c).index = kNew ∨ c ∈ s ∧ (epoll.channels c).isNoneEvent = true) :
    ∃ epoll', epoll.step (.update c mask) = .ok epoll' ∧
      epoll'.channels = setIndex (setEvents epoll.channels c mask) c kAdded ∧
      epoll'.interest = Function.update epoll.interest (fd c) (some ⟨mask, c⟩) ∧
      epoll'.channelMap.Holds epoll'.channels (insert c s) := by
  have hfds (d : ι) : (setIndex (setEvents epoll.channels c mask) c kAdded d).fd =
      (epoll.channels d).fd := by simp
  rcases hc with ⟨hc, hindex⟩ | ⟨hc, hnone⟩
  · have hnew := h.notMem hc
    have hfd : ∀ d ∈ s, (epoll.channels d).fd ≠ (epoll.channels c).fd := by
      intro d hd heq
      obtain rfl := h.eq_of_fd_eq heq
      exact hc hd
    refine ⟨{
      channelMap := epoll.channelMap.insert (epoll.channels c).fd (some c)
      channels := setIndex (setEvents epoll.channels c mask) c kAdded
      interest := Function.update epoll.interest (fd c) (some ⟨mask, c⟩) }, ?_, rfl, rfl,
      (h.holds.insert hfd).congr hfds⟩
    simp only [step, update, addChannel, setEvents_index, setEvents_fd, hindex, true_or,
      if_true, if_neg hnew]
    rw [control_add]
    · simp [h.fd_eq]
    · simp [Finmap.mem_insert]
    · simp [h.fd_eq, h.interest_eq_none hc]
  · have hindex : (epoll.channels c).index = kDeleted := by rw [h.index_eq c hc, if_pos hnone]
    refine ⟨{ epoll with
      channels := setIndex (setEvents epoll.channels c mask) c kAdded
      interest := Function.update epoll.interest (fd c) (some ⟨mask, c⟩) }, ?_, rfl, rfl, ?_⟩
    · simp only [step, update, addChannel, setEvents_index, setEvents_fd, hindex, or_true,
        if_true, if_pos (h.holds.mem hc)]
      rw [if_neg (by decide), control_add]
      · simp [h.fd_eq]
      · simpa using h.holds.mem hc
      · simp [h.fd_eq, h.registered_eq c hc, hnone]
    · rw [Finset.insert_eq_of_mem hc]
      exact h.holds.congr hfds

/-- The update of a channel with interest issues an `EPOLL_CTL_MOD` or `EPOLL_CTL_DEL`. -/
theorem Shadowed.update_change (h : epoll.Shadowed fd s) (mask : EventMask) (hc : c ∈ s)
    (hinterest : (epoll.channels c).isNoneEvent = false) :
    ∃ epoll', epoll.step (.update c mask) = .ok epoll' ∧ epoll'.Shadowed fd s ∧
      ∀ d ≠ c, epoll'.channels d = epoll.channels d := by
  have hindex : (epoll.channels c).index = kAdded := by
    rw [h.index_eq c hc, if_neg (by simp [hinterest])]
  have hmem : (setEvents epoll.channels c mask c).fd ∈ epoll.channelMap := by
    simpa using h.holds.mem hc
  have hsome : epoll.interest (setEvents epoll.channels c mask c).fd =
      some ⟨(epoll.channels c).events, c⟩ := by
    rw [setEvents_fd, h.fd_eq, h.registered_eq c hc, if_neg (by simp [hinterest])]
  by_cases hmask : mask = kNone
  · refine ⟨{ epoll with
      channels := setIndex (setEvents epoll.channels c mask) c kDeleted
      interest := Function.update epoll.interest (fd c) none }, ?_,
      h.replace hc (fun d => by simp) (fun d hd => by simp [hd]) ?_, fun d hd => by simp [hd]⟩
    · rw [step, update_of_kAdded (by simpa using hindex), changeChannel,
        if_pos (by simp [Channel.isNoneEvent, hmask]), control_present (by decide) hmem hsome]
      simp [h.fd_eq]
    · simp [Channel.isNoneEvent, hmask]
  · refine ⟨{ epoll with
      channels := setEvents epoll.channels c mask
      interest := Function.update epoll.interest (fd c) (some ⟨mask, c⟩) }, ?_,
      h.replace hc (fun d => by simp) (fun d hd => by simp [hd]) ?_, fun d hd => by simp [hd]⟩
    · rw [step, update_of_kAdded (by simpa using hindex), changeChannel,
        if_neg (by simp [Channel.isNoneEvent, hmask]), control_present (by decide) hmem hsome]
      simp [h.fd_eq]
    · simp [Channel.isNoneEvent, hmask, hindex]

/-- A removed channel cannot be updated again. -/
theorem Shadowed.update_removed (h : epoll.Shadowed fd s) (mask : EventMask) (hc : c ∉ s)
    (hindex : (epoll.channels c).index = kDeleted) :
    epoll.step (.update c mask) = .error .assertFailed := by
  simp only [step, update, addChannel, setEvents_index, setEvents_fd, hindex, or_true, if_true,
    if_neg (h.notMem hc)]
  rw [if_neg (by decide)]

/-- A registered channel without interest can be removed. -/
theorem Shadowed.remove_ok (h : epoll.Shadowed fd s) (hc : c ∈ s) :
    epoll.step (.remove c) =
      .ok { epoll with channelMap := epoll.channelMap.erase (epoll.channels c).fd } := by
  have hindex : (epoll.channels c).index = kDeleted ∨ (epoll.channels c).index = kAdded := by
    rw [h.index_eq c hc]
    split
    · exact .inl rfl
    · exact .inr rfl
  rw [step, remove, if_pos ⟨h.holds.mem hc, hindex⟩]

/-! ## Runs -/

/-- The invariant of a run: a channel without calls is new, and a removed one is marked
as deleted. -/
structure Reached (fd : ι ↪ ℕ) (t : List (PollerOp ι) × Epoll ι) : Prop where
  shadowed : t.2.Shadowed fd (registered t.1)
  fresh : ∀ c ∉ registered t.1, (t.2.channels c).index =
    if .remove c ∈ t.1 then kDeleted else kNew
  removed : ∀ c, .remove c ∈ t.1 → c ∉ registered t.1

/-- A new poller has registered nothing. -/
theorem reached_init : Reached fd ([], init fd) where
  shadowed :=
    { holds := by simp [ChannelMap.Holds, init]
      fd_eq := fun _ => rfl
      index_eq := by simp
      registered_eq := by simp
      unregistered_eq := fun _ _ => rfl }
  fresh _ _ := rfl
  removed := by simp

/-- In the life cycle that callers keep to, a channel is updated while it is new or registered. -/
theorem Reached.new_or_noInterest {done : List (PollerOp ι)} {epoll : Epoll ι}
    (h : Reached fd (done, epoll)) {c : ι} (hremove : .remove c ∉ done)
    (hinterest : ¬ (c ∈ registered done ∧ (epoll.channels c).isNoneEvent = false)) :
    c ∉ registered done ∧ (epoll.channels c).index = kNew ∨
      c ∈ registered done ∧ (epoll.channels c).isNoneEvent = true := by
  by_cases hc : c ∈ registered done
  · exact .inr ⟨hc, by simpa [hc] using hinterest⟩
  · exact .inl ⟨hc, by simpa [hremove] using h.fresh c hc⟩

/-- An update keeps the account of what is registered. -/
theorem Reached.update {done : List (PollerOp ι)} {epoll epoll' : Epoll ι}
    (h : Reached fd (done, epoll)) {c : ι} {mask : EventMask} (hremove : .remove c ∉ done)
    (hshadowed : epoll'.Shadowed fd (insert c (registered done)))
    (hchannels : ∀ d ≠ c, epoll'.channels d = epoll.channels d) :
    Reached fd (done ++ [.update c mask], epoll') where
  shadowed := by simpa [register] using hshadowed
  fresh d hd := by
    have hd' : d ≠ c ∧ d ∉ registered done := by simpa [register] using hd
    rw [hchannels d hd'.1, h.fresh d hd'.2]
    simp
  removed d hd := by
    have hd' : .remove d ∈ done := by simpa using hd
    have hdc : d ≠ c := by
      rintro rfl
      exact hremove hd'
    simpa [register, hdc] using h.removed d hd'

/-- A removal keeps the account of what is registered. -/
theorem Reached.remove {done : List (PollerOp ι)} {epoll : Epoll ι}
    (h : Reached fd (done, epoll)) {c : ι} (hc : c ∈ registered done)
    (hnone : (epoll.channels c).isNoneEvent = true) :
    Reached fd (done ++ [.remove c],
      { epoll with channelMap := epoll.channelMap.erase (epoll.channels c).fd }) where
  shadowed := by
    rw [registered_append, register]
    refine h.shadowed.of_local c (fun d hd => by simp [hd])
      (h.shadowed.holds.erase fun d _ heq => h.shadowed.eq_of_fd_eq heq) (fun _ _ => rfl) rfl
      (fun _ _ => rfl) (fun hmem => absurd hmem (by simp)) fun _ => ?_
    rw [h.shadowed.registered_eq c hc, if_pos hnone]
  fresh d hd := by
    by_cases hdc : d = c
    · subst hdc
      simpa [hnone] using h.shadowed.index_eq d hc
    · have hd' : d ∉ registered done := by simpa [register, hdc] using hd
      simpa [hdc] using h.fresh d hd'
  removed d hd := by
    rw [registered_append, register, Finset.mem_erase]
    rintro ⟨hdc, hmem⟩
    exact h.removed d (by simpa [hdc] using hd) hmem

/-- A paired call keeps the interest set exact. -/
theorem Reached.step {t : List (PollerOp ι) × Epoll ι} (h : Reached fd t) (op : PollerOp ι)
    (hlegal : RemovesRegistered t op) (hpaired : Paired t op) :
    ∃ epoll', t.2.step op = .ok epoll' ∧ Reached fd (t.1 ++ [op], epoll') := by
  obtain ⟨done, epoll⟩ := t
  cases op with
  | update c mask =>
    obtain ⟨hremove, hmask⟩ := hpaired
    by_cases hinterest : c ∈ registered done ∧ (epoll.channels c).isNoneEvent = false
    · obtain ⟨epoll', hok, hshadowed, hchannels⟩ :=
        h.shadowed.update_change mask hinterest.1 hinterest.2
      refine ⟨epoll', hok, h.update hremove ?_ hchannels⟩
      rwa [Finset.insert_eq_of_mem hinterest.1]
    · obtain ⟨epoll', hok, hchannels, hset, hholds⟩ :=
        h.shadowed.update_add mask (h.new_or_noInterest hremove hinterest)
      have hother : ∀ d ≠ c, epoll'.channels d = epoll.channels d := by
        intro d hd
        simp [hchannels, hd]
      have hevents : ¬ mask = kNone := fun heq => hinterest (hmask heq)
      refine ⟨epoll', hok, h.update hremove ?_ hother⟩
      refine h.shadowed.of_local c (fun d hd => by simp [hd]) hholds hother (by simp [hchannels])
        (fun k hk => by rw [hset, Function.update_of_ne hk]) (fun _ => ?_) (by simp)
      simp [hchannels, hset, Channel.isNoneEvent, hevents]
  | remove c => exact ⟨_, h.shadowed.remove_ok hlegal, h.remove hlegal hpaired⟩

/-- The other calls fail an assertion or leave the interest set different from the
channels' masks. -/
theorem Reached.paired {t : List (PollerOp ι) × Epoll ι} (h : Reached fd t) {op : PollerOp ι}
    (hlegal : RemovesRegistered t op) {epoll' : Epoll ι} (hok : t.2.step op = .ok epoll')
    (hexact : epoll'.Exact) : Paired t op := by
  obtain ⟨done, epoll⟩ := t
  cases op with
  | update c mask =>
    have hremove : .remove c ∉ done := by
      intro hmem
      have hc := h.removed c hmem
      rw [h.shadowed.update_removed mask hc (by simpa [hmem] using h.fresh c hc)] at hok
      cases hok
    refine ⟨hremove, fun hmask => ?_⟩
    by_contra hinterest
    obtain ⟨epoll'', hok', hchannels, hset, hholds⟩ :=
      h.shadowed.update_add mask (h.new_or_noInterest hremove hinterest)
    obtain rfl := Except.ok.inj (hok'.symm.trans hok)
    have hlookup := hholds.lookup (Finset.mem_insert_self c (registered done))
    have heq := hexact.interest_eq (fd c)
    rw [hchannels, setIndex_fd, setEvents_fd, h.shadowed.fd_eq] at hlookup
    simp [wanted, hlookup, hset, hchannels, Channel.isNoneEvent, hmask] at heq
  | remove c =>
    by_contra hpaired
    have hinterest : (epoll.channels c).isNoneEvent = false := by simpa [Paired] using hpaired
    obtain rfl := Except.ok.inj ((h.shadowed.remove_ok hlegal).symm.trans hok)
    have heq := hexact.interest_eq (fd c)
    rw [wanted, h.shadowed.fd_eq, Finmap.lookup_erase, h.shadowed.registered_eq c hlegal,
      hinterest] at heq
    cases heq

/-- The interest set is exactly that of the registered channels with interest after every
call, and no call fails, if and only if the calls are paired. -/
theorem interestExact_iff_paired (fd : ι ↪ ℕ) {ops : List (PollerOp ι)}
    (h : Guarded (withHistory Epoll.step) RemovesRegistered ([], init fd) ops) :
    Safe (withHistory Epoll.step) (fun t => t.2.Exact) ([], init fd) ops ↔
      Guarded (withHistory Epoll.step) Paired ([], init fd) ops := by
  refine along_congr_of_guarded (Reached fd) ?_ ?_ reached_init h
  · intro t op ht hlegal
    constructor
    · rintro ⟨u, hok, hexact⟩
      obtain ⟨epoll', hok', rfl⟩ := withHistory_eq_ok.mp hok
      exact ht.paired hlegal hok' hexact
    · intro hpaired
      obtain ⟨epoll', hok, hreached⟩ := ht.step op hlegal hpaired
      exact ⟨_, withHistory_eq_ok.mpr ⟨epoll', hok, rfl⟩, hreached.shadowed.exact⟩
  · intro t op u ht hlegal hpaired hok
    obtain ⟨epoll', hok', hreached⟩ := ht.step op hlegal hpaired
    obtain ⟨epoll'', hok'', rfl⟩ := withHistory_eq_ok.mp hok
    obtain rfl := Except.ok.inj (hok'.symm.trans hok'')
    exact hreached

end

/-- A channel that loses its interest, is given some again, and goes without. -/
theorem interestExact_six_calls :
    Safe (withHistory Epoll.step) (fun t => t.2.Exact) ([], init (Function.Embedding.refl ℕ))
      [.update 5 kRead, .update 7 kWrite, .update 5 kNone, .update 5 kRead, .update 7 kNone,
        .remove 7] :=
  (interestExact_iff_paired _ (by decide +kernel)).mpr (by decide +kernel)

/-- The removal of a channel with interest leaves its descriptor in the interest set. -/
theorem not_interestExact :
    Guarded (withHistory Epoll.step) RemovesRegistered ([], init (Function.Embedding.refl ℕ))
      [.update 5 kRead, .remove 5] ∧
    ¬ Safe (withHistory Epoll.step) (fun t => t.2.Exact) ([], init (Function.Embedding.refl ℕ))
      [.update 5 kRead, .remove 5] := by
  refine ⟨by decide +kernel, ?_⟩
  rintro ⟨⟨t, ht, -⟩, hrest⟩
  obtain ⟨⟨u, hu, hexact⟩, -⟩ := hrest t ht
  have hcode : (run (withHistory Epoll.step) ([], init (Function.Embedding.refl ℕ))
      [.update 5 kRead, .remove 5]).map
        (fun t => ((t.2.interest 5).map EpollEvent.events, t.2.wanted 5)) =
      .ok (some kRead, none) := by
    decide +kernel
  simp only [run, ht, hu, Except.map, Except.ok.injEq, Prod.mk.injEq] at hcode
  have heq := hexact.interest_eq 5
  rw [hcode.1, hcode.2] at heq
  cases heq

end Epoll

end Reactor
