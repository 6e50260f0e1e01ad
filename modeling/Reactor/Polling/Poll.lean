import Mathlib.Data.List.FinRange
import Reactor.PollCalls
import Reactor.Polling.Ready

/-!
# The report of `poll`

`poll(2)` passes over the entries that are marked -1, and `fillActiveChannel` looks the
channels of the others up by their descriptors. As long as every entry without interest is
marked, the active channels are those that are ready, each once and in the order of the entries.
-/

namespace Reactor

open Transition

/-- An entry behind the call of `poll(2)`. -/
def PollFd.polled (ready : Readiness) (entry : PollFd) : PollFd :=
  { entry with revents := if entry.fd < 0 then 0 else ready.revents entry.fd entry.events }

/-- Every entry without interest is marked. -/
def Marked (pollfds : List PollFd) : Prop := ∀ entry ∈ pollfds, entry.events = kNone → entry.fd = -1

namespace Poll

variable {ι : Type*} [DecidableEq ι]

/-- `Poll::fillActiveChannel`. -/
def fillActiveChannel (poll : Poll ι) : List PollFd → Except Fault (Poll ι × List ι)
  | [] => .ok (poll, [])
  | entry :: entries =>
    if 0 < entry.revents.toInt then
      match poll.channelMap.lookup entry.fd with
      | some (some c) => do
        let marked := setRevents poll.channels c entry.revents
        let (poll, active) ← fillActiveChannel { poll with channels := marked } entries
        return (poll, c :: active)
      | some none => .error .nullDereference
      | none => .error .assertFailed
    else
      fillActiveChannel poll entries

/-- `Poll::poll`. -/
def poll (poll : Poll ι) (ready : Readiness) : Except Fault (Poll ι × List ι) :=
  let pollfds := poll.pollfds.map (PollFd.polled ready)
  { poll with pollfds }.fillActiveChannel pollfds

section

variable {poll poll' : Poll ι} {pollfds entries : List PollFd} {channels : ι → Channel}
  {s : Finset ι} {owners : List ι} {ready : Readiness} {c : ι} {mask : EventMask}

/-- Whose entry it is does not depend on what is reported. -/
@[simp] theorem isOf_setRevents {entry : PollFd} {revents : EventMask} {d : ι} :
    entry.IsOf (setRevents channels c revents d) ↔ entry.IsOf (channels d) := by
  by_cases hd : d = c
  · subst hd
    simp [setRevents, PollFd.IsOf, Channel.isNoneEvent]
  · simp [setRevents, hd]

omit [DecidableEq ι] in
/-- The channels in the order of their entries. -/
theorem Layout.exists_owners (h : Layout pollfds channels s) :
    ∃ owners : List ι, List.Forall₂ (fun entry c => entry.IsOf (channels c)) pollfds owners ∧
      owners.Nodup ∧ ∀ c, c ∈ owners ↔ c ∈ s := by
  choose owner hmem hindex using fun i : Fin pollfds.length => h.owner i i.2
  have howner (c : ι) (hc : c ∈ s) :
      ∃ i, owner i = c ∧ ∃ entry, pollfds[i]? = some entry ∧ entry.IsOf (channels c) := by
    obtain ⟨i, entry, hi, hentry, hof⟩ := h.entry c hc
    have hlt := (List.getElem?_eq_some_iff.mp hentry).1
    refine ⟨⟨i, hlt⟩, h.index_inj _ (hmem _) c hc ?_, entry, hentry, hof⟩
    rw [hindex, hi]
  refine ⟨List.ofFn owner, ?_, List.nodup_ofFn.mpr ?_, ?_⟩
  · refine List.forall₂_iff_get.mpr ⟨by simp, fun i hi hi' => ?_⟩
    obtain ⟨j, hj, entry, hentry, hof⟩ := howner (owner ⟨i, hi⟩) (hmem _)
    have hij := congrArg (fun c => (channels c).index) hj
    simp only [hindex] at hij
    obtain rfl : j = ⟨i, hi⟩ := Fin.ext (Int.ofNat.inj hij)
    have hget : pollfds[i] = entry := (List.getElem?_eq_some_iff.mp hentry).2
    simpa [hget] using hof
  · intro i j hij
    have hpos := congrArg (fun c => (channels c).index) hij
    simp only [hindex] at hpos
    exact Fin.ext (Int.ofNat.inj hpos)
  · intro c
    rw [List.mem_ofFn]
    constructor
    · rintro ⟨i, rfl⟩
      exact hmem i
    · intro hc
      obtain ⟨i, hi, -⟩ := howner c hc
      exact ⟨i, hi⟩

/-- What `poll(2)` says of a channel in its entry. -/
theorem polled_revents (ready : Readiness) {entry : PollFd} {channel : Channel}
    (hof : entry.IsOf channel) (hmarked : entry.events = kNone → entry.fd = -1)
    (hfd : 0 ≤ channel.fd) :
    (0 < (entry.polled ready).revents.toInt ↔ channel.isReady ready = true) ∧
      (channel.isReady ready = true → entry.fd = channel.fd ∧
        (entry.polled ready).revents = ready.revents channel.fd channel.events) := by
  obtain ⟨hevents, hentry⟩ := hof
  by_cases hnone : channel.events = kNone
  · have hzero : (entry.polled ready).revents = 0 := by
      rw [PollFd.polled, hmarked (hevents.trans hnone)]
      rfl
    rw [hzero]
    simp [Channel.isReady, Channel.isNoneEvent, hnone]
  · have hinterest : channel.isNoneEvent = false := by simp [Channel.isNoneEvent, hnone]
    rw [hinterest] at hentry
    have hsame : entry.fd = channel.fd := by simpa using hentry
    have hrevents : (entry.polled ready).revents = ready.revents channel.fd channel.events := by
      rw [PollFd.polled, hsame, hevents]
      exact if_neg (Int.not_lt.mpr hfd)
    rw [hrevents, ready.revents_pos_iff]
    exact ⟨by simp [Channel.isReady, hinterest], fun _ => ⟨hsame, rfl⟩⟩

/-- The channels that are ready are told so, in the order of their entries. -/
theorem fillActiveChannel_eq
    (h : List.Forall₂ (fun entry c => entry.IsOf (poll.channels c)) entries owners)
    (hmarked : Marked entries)
    (hlookup : ∀ c ∈ owners, poll.channelMap.lookup (poll.channels c).fd = some (some c))
    (hfd : ∀ c ∈ owners, 0 ≤ (poll.channels c).fd) (hnodup : owners.Nodup) {active : List ι}
    (hactive : active = owners.filter fun c => (poll.channels c).isReady ready) :
    poll.fillActiveChannel (entries.map (PollFd.polled ready)) =
      .ok ({ poll with channels := tell poll.channels ready active }, active) := by
  induction entries generalizing poll owners active with
  | nil =>
    obtain rfl := List.forall₂_nil_left_iff.mp h
    subst hactive
    rw [List.filter_nil, tell_nil]
    rfl
  | cons entry entries ih =>
    obtain ⟨c, owners, hof, hrest, rfl⟩ := List.forall₂_cons_left_iff.mp h
    obtain ⟨hentry, hentries⟩ := List.forall_mem_cons.mp hmarked
    obtain ⟨hlookupc, hlookup⟩ := List.forall_mem_cons.mp hlookup
    obtain ⟨hfdc, hfd⟩ := List.forall_mem_cons.mp hfd
    obtain ⟨hc, hnodup⟩ := List.nodup_cons.mp hnodup
    obtain ⟨hpos, htold⟩ := polled_revents ready hof hentry hfdc
    rw [List.map_cons, fillActiveChannel]
    cases hready : (poll.channels c).isReady ready with
    | false =>
      rw [List.filter_cons_of_neg (by simp [hready])] at hactive
      rw [if_neg (by simp [hpos, hready])]
      exact ih hrest hentries hlookup hfd hnodup hactive
    | true =>
      obtain ⟨hsame, hrevents⟩ := htold hready
      rw [List.filter_cons_of_pos (by simpa using hready)] at hactive
      subst hactive
      have hlookupc : poll.channelMap.lookup (entry.polled ready).fd = some (some c) := by
        rw [PollFd.polled, hsame, hlookupc]
      rw [if_pos (hpos.mpr hready), hlookupc]
      dsimp only
      rw [hrevents]
      generalize hrev : ready.revents (poll.channels c).fd (poll.channels c).events = revents
      have hrec := @ih { poll with channels := setRevents poll.channels c revents } owners
        (hrest.imp fun _ _ => isOf_setRevents.mpr) hentries
        (fun d hd => by rw [setRevents_fd]; exact hlookup d hd) (by simpa using hfd) hnodup _ rfl
      simp only [isReady_setRevents] at hrec
      have hnotMem : c ∉ owners.filter fun d => (poll.channels d).isReady ready := by
        simp [hc]
      rw [hrec, ok_bind, ← tell_cons hnotMem, hrev]
      rfl

omit [DecidableEq ι] in
/-- Whose entry it is depends on descriptors and events alone. -/
theorem isOf_congr {entry entry' : PollFd} {channel channel' : Channel}
    (hentry : entry'.fd = entry.fd ∧ entry'.events = entry.events)
    (hchannel : channel'.fd = channel.fd ∧ channel'.events = channel.events) :
    entry'.IsOf channel' ↔ entry.IsOf channel := by
  rw [PollFd.IsOf, PollFd.IsOf, Channel.isNoneEvent, Channel.isNoneEvent, hentry.1, hentry.2,
    hchannel.1, hchannel.2]

/-- The call changes neither the places of the channels nor what they wait for. -/
theorem Layout.polled (h : Layout pollfds channels s) (ready : Readiness) (active : List ι) :
    Layout (pollfds.map (PollFd.polled ready)) (tell channels ready active) s where
  entry c hc := by
    obtain ⟨i, entry, hi, hentry, hof⟩ := h.entry c hc
    refine ⟨i, entry.polled ready, by rw [tell_index, hi], ?_, ?_⟩
    · rw [List.getElem?_map, hentry]
      rfl
    · exact (isOf_congr ⟨rfl, rfl⟩ ⟨tell_fd, tell_events⟩).mpr hof
  index_inj c hc d hd heq := by
    rw [tell_index, tell_index] at heq
    exact h.index_inj c hc d hd heq
  owner i hi := by
    rw [List.length_map] at hi
    obtain ⟨c, hc, hci⟩ := h.owner i hi
    exact ⟨c, hc, tell_index.trans hci⟩

/-- `Poll::poll` reports the channels that are ready and keeps the registry. -/
theorem Packed.poll_ok {fd : ι ↪ ℕ} (h : poll.Packed fd s) (hmarked : Marked poll.pollfds)
    (ready : Readiness) :
    ∃ poll' active, poll.poll ready = .ok (poll', active) ∧
      Reports ready poll.channels s active ∧ poll'.channels = tell poll.channels ready active ∧
      poll'.Packed fd s ∧ Marked poll'.pollfds := by
  obtain ⟨owners, howners, hnodup, hmem⟩ := h.layout.exists_owners
  generalize hactive : (owners.filter fun c => (poll.channels c).isReady ready) = active
  have hfill := @fillActiveChannel_eq _ _ { poll with
    pollfds := poll.pollfds.map (PollFd.polled ready) } _ _ ready howners hmarked
    (fun c hc => h.holds.lookup ((hmem c).mp hc))
    (fun c _ => by rw [h.fd_eq]; exact Int.natCast_nonneg _) hnodup _ hactive.symm
  refine ⟨_, active, hfill, ⟨?_, fun c => ?_⟩, rfl, ⟨?_, ?_, ?_, ?_⟩, ?_⟩
  · rw [← hactive]
    exact hnodup.filter _
  · rw [← hactive, List.mem_filter, hmem]
  · rw [List.length_map]
    exact h.size_eq
  · exact h.holds.congr fun _ => tell_fd
  · exact h.layout.polled ready active
  · intro c
    exact tell_fd.trans (h.fd_eq c)
  · intro entry hentry
    obtain ⟨old, hold, rfl⟩ := List.mem_map.mp hentry
    exact hmarked old hold

/-- Neither call changes the masks of a channel but as it is told to. -/
theorem masks_step {op : PollerOp ι} (hok : poll.step op = .ok poll') (d : ι) :
    (poll'.channels d).masks = (op.setMasks poll.channels d).masks := by
  cases op with
  | update c mask =>
    rcases update_ok hok with ⟨-, rfl⟩ | ⟨-, -, rfl⟩
    · exact masks_setIndex
    · rfl
  | remove c =>
    rcases remove_ok hok with ⟨-, rfl⟩ | ⟨-, heq | ⟨fd, e, -, -, heq⟩⟩
    · rfl
    · rw [heq]
      rfl
    · rw [heq]
      exact masks_setIndex

/-! ## The marks -/

omit [DecidableEq ι] in
/-- An entry without events is marked with a negative descriptor. -/
theorem marked_updatedEntry {channel : Channel} (h : (updatedEntry channel).events = kNone) :
    (updatedEntry channel).fd = -1 := by
  have hnone : channel.isNoneEvent = true := by
    rw [Channel.isNoneEvent, beq_iff_eq]
    exact h
  rw [updatedEntry, hnone]
  rfl

/-- The first update of a channel must not be one without interest. -/
theorem marked_update (h : Marked poll.pollfds)
    (hnew : (poll.channels c).index < 0 → mask ≠ kNone)
    (hok : poll.step (.update c mask) = .ok poll') : Marked poll'.pollfds := by
  rcases update_ok hok with ⟨hindex, rfl⟩ | ⟨hindex, -, rfl⟩
  · intro entry hentry hnone
    rcases List.mem_append.mp hentry with hold | hlast
    · exact h entry hold hnone
    · rw [List.mem_singleton.mp hlast] at hnone
      exact absurd (by simpa using hnone) (hnew hindex)
  · intro entry hentry hnone
    rcases List.mem_or_eq_of_mem_set hentry with hold | rfl
    · exact h entry hold hnone
    · exact marked_updatedEntry hnone

/-- The entries that are left are among the old ones. -/
theorem mem_of_mem_dropEntry (hok : poll.dropEntry c = .ok poll') :
    ∀ entry ∈ poll'.pollfds, entry ∈ poll.pollfds := by
  intro kept hkept
  rw [dropEntry] at hok
  dsimp only at hok
  split at hok
  · obtain rfl := Except.ok.inj hok
    exact List.dropLast_subset _ hkept
  · split at hok
    · cases hok
    · split at hok
      · next entry last hentry hlast =>
        obtain ⟨rest, hset, hok⟩ := bind_eq_ok.mp hok
        obtain rfl := Except.ok.inj hok
        have hsame : rest.pollfds = (poll.pollfds.set (poll.channels c).index.toNat last).set
            (poll.pollfds.length - 1) entry := by
          rw [setIndexOf] at hset
          split at hset
          · obtain rfl := Except.ok.inj hset
            rfl
          · cases hset
        have hmem := List.dropLast_subset _ hkept
        rw [hsame] at hmem
        rcases List.mem_or_eq_of_mem_set hmem with hmem | rfl
        · rcases List.mem_or_eq_of_mem_set hmem with hmem | rfl
          · exact hmem
          · exact List.mem_of_getLast? hlast
        · exact List.mem_of_getElem? hentry
      · cases hok

/-- No entry is made by a removal. -/
theorem marked_remove (h : Marked poll.pollfds) (hok : poll.step (.remove c) = .ok poll') :
    Marked poll'.pollfds := by
  intro entry hentry
  apply h entry
  rw [step, remove] at hok
  split at hok
  · obtain rfl := Except.ok.inj hok
    exact hentry
  · split at hok
    · cases hok
    · obtain ⟨rest, hdrop, herase⟩ := bind_eq_ok.mp hok
      rw [eraseFd] at herase
      split at herase
      · obtain rfl := Except.ok.inj herase
        exact mem_of_mem_dropEntry hdrop entry hentry
      · cases herase

end

end Poll

end Reactor
