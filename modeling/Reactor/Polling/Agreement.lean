import Reactor.Polling.Epoll
import Reactor.Polling.Poll

/-!
# The two pollers agree

`Poll` and `Epoll` are used through one interface. Where their callers keep to the protocol of
registration, and `Poll` is not made to look for a channel by an entry that it has marked, they
watch the same channels for the same events and report the same ones, but for what does not fit
into `events_`. As `events_` is doubled whenever it has been filled, that is the case in a few
polls of a whole run at most.
-/

namespace Reactor

open Transition

/-- `kInitEventSize`. -/
def kInitEventSize : ℕ := 20

/-- Both pollers, with the calls so far and the active channels of the last poll. -/
structure Pollers (ι : Type*) where
  calls : List (PollerOp ι) := []
  poll : Poll ι
  epoll : Epoll ι
  /-- The size of `events_`. -/
  size : ℕ := kInitEventSize
  pollActive : List ι := []
  epollActive : List ι := []
  /-- The polls that have filled `events_`. -/
  filled : ℕ := 0

/-- What the pollers are asked for alike. -/
inductive PollersAction (ι : Type*) where
  | call (op : PollerOp ι)
  /-- `poll`, with what is ready and the order in which `epoll_wait` finds it. -/
  | wait (ready : Readiness) (order : List ℤ)

/-- What ends a run of one of them. -/
inductive PollersFault where
  | poll (fault : Fault)
  | epoll (fault : EpollFault)

namespace Pollers

variable {ι : Type*} [DecidableEq ι]

/-- Both pollers do the same. -/
def step (s : Pollers ι) : PollersAction ι → Except PollersFault (Pollers ι)
  | .call op => do
    let poll ← (s.poll.step op).mapError .poll
    let epoll ← (s.epoll.step op).mapError .epoll
    return { s with calls := s.calls ++ [op], poll, epoll }
  | .wait ready order => do
    let (poll, pollActive) ← (s.poll.poll ready).mapError .poll
    let (epoll, epollActive, size) ← (s.epoll.poll s.size ready order).mapError .epoll
    return { s with
      poll, epoll, size, pollActive, epollActive
      filled := if epollActive.length = s.size then s.filled + 1 else s.filled }

/-- The pollers before the first call. -/
def init (fd : ι ↪ ℕ) : Pollers ι := { poll := .init fd, epoll := .init fd }

/-- The protocol of registration, which callers can keep to by what they know of their channel:
the calls for it begin with an update that gives it interest and end with its removal, and it is
removed, or gets an empty mask, as a registered channel without interest or with it. -/
def KeepsProtocol (s : Pollers ι) (op : PollerOp ι) : Prop :=
  Poll.Lifecycle (s.calls, s.poll) op ∧ Epoll.Paired (s.calls, s.epoll) op

instance (s : Pollers ι) (op : PollerOp ι) : Decidable (s.KeepsProtocol op) :=
  inferInstanceAs (Decidable (_ ∧ _))

/-- A call keeps to the protocol. Besides, as `Poll` asks for and callers cannot see, it removes
a channel from before the end of `pollfds_` only while the last entry carries its descriptor. And
`epoll_wait` passes over no registered descriptor. -/
def Proper (s : Pollers ι) : PollersAction ι → Prop
  | .call op => s.KeepsProtocol op ∧ Poll.LastEntryKnown (s.calls, s.poll) op
  | .wait _ order => order.Nodup ∧ ∀ c ∈ registered s.calls, (s.epoll.channels c).fd ∈ order

instance (s : Pollers ι) (action : PollersAction ι) : Decidable (s.Proper action) :=
  match action with
  | .call _ => inferInstanceAs (Decidable (_ ∧ _))
  | .wait _ _ => inferInstanceAs (Decidable (_ ∧ _))

/-- The channels that have ever been updated or removed. -/
def known (s : Pollers ι) : Finset ι := (s.calls.map PollerOp.channel).toFinset

/-- The invariant. -/
structure Sound (fd : ι ↪ ℕ) (s : Pollers ι) : Prop where
  poll : Poll.Reached fd (s.calls, s.poll)
  epoll : Epoll.Reached fd (s.calls, s.epoll)
  marked : Marked s.poll.pollfds
  events_eq : ∀ c, (s.poll.channels c).events = (s.epoll.channels c).events
  nodup : s.pollActive.Nodup ∧ s.epollActive.Nodup
  reported : ∀ c ∈ s.epollActive,
    c ∈ s.pollActive ∧ (s.poll.channels c).revents = (s.epoll.channels c).revents
  complete : s.epollActive.Perm s.pollActive ∨ s.size = 2 * s.epollActive.length
  size_eq : s.size = kInitEventSize * 2 ^ s.filled
  filled_le : s.filled = 0 ∨ s.size ≤ 2 * s.known.card

section

variable {fd : ι ↪ ℕ} {s s' : Pollers ι}

/-- Only channels that have been in a call are registered. -/
theorem registered_subset (calls : List (PollerOp ι)) :
    registered calls ⊆ (calls.map PollerOp.channel).toFinset := by
  induction calls using List.reverseRecOn with
  | nil => exact Finset.Subset.refl _
  | append_singleton calls op ih =>
    intro c hc
    rw [registered_append] at hc
    rw [List.map_append, List.toFinset_append, Finset.mem_union]
    cases op with
    | update d mask =>
      rcases Finset.mem_insert.mp hc with rfl | hc
      · exact .inr (by simp [PollerOp.channel])
      · exact .inl (ih hc)
    | remove d => exact .inl (ih (Finset.mem_of_mem_erase hc))

/-! ## Calls -/

/-- Both pollers get the same interest and report what they did before. -/
theorem masks_setMasks (op : PollerOp ι) {channels channels' : ι → Channel}
    (hevents : ∀ c, (channels c).events = (channels' c).events) (c : ι) :
    (op.setMasks channels c).events = (op.setMasks channels' c).events ∧
      (op.setMasks channels c).revents = (channels c).revents := by
  cases op with
  | update d mask =>
    by_cases hc : c = d
    · subst hc
      simp [PollerOp.setMasks]
    · simp [PollerOp.setMasks, hc, hevents]
  | remove d => exact ⟨hevents c, rfl⟩

/-- Both pollers make the same of a proper call. -/
theorem Sound.call (h : s.Sound fd) {op : PollerOp ι} (hproper : s.Proper (.call op)) :
    ∃ s', s.step (.call op) = .ok s' ∧ s'.Sound fd := by
  obtain ⟨⟨hlife, hpaired⟩, hlast⟩ := hproper
  have hlegal : Epoll.RemovesRegistered (s.calls, s.epoll) op := by
    cases op with
    | update c mask => trivial
    | remove c => exact hlife
  obtain ⟨poll, hpoll, hreachedPoll⟩ := h.poll.step op hlife hlast
  obtain ⟨epoll, hepoll, hreachedEpoll⟩ := h.epoll.step op hlegal hpaired
  have hevents (c : ι) : (poll.channels c).events = (op.setMasks s.poll.channels c).events ∧
      (epoll.channels c).events = (op.setMasks s.epoll.channels c).events :=
    ⟨congrArg Prod.fst (Poll.masks_step hpoll c), congrArg Prod.fst (Epoll.masks_step hepoll c)⟩
  have hrevents (c : ι) : (poll.channels c).revents = (op.setMasks s.poll.channels c).revents ∧
      (epoll.channels c).revents = (op.setMasks s.epoll.channels c).revents :=
    ⟨congrArg Prod.snd (Poll.masks_step hpoll c), congrArg Prod.snd (Epoll.masks_step hepoll c)⟩
  have hknown : s.known ⊆ ((s.calls ++ [op]).map PollerOp.channel).toFinset := by
    rw [List.map_append, List.toFinset_append]
    exact Finset.subset_union_left
  refine ⟨{ s with calls := s.calls ++ [op], poll, epoll }, ?_, ?_⟩
  · rw [step, hpoll, hepoll]
    rfl
  constructor
  · exact hreachedPoll
  · exact hreachedEpoll
  · cases op with
    | update c mask =>
      refine Poll.marked_update h.marked (fun hindex hnone => ?_) hpoll
      have hc := (hpaired.2 hnone).1
      exact absurd (h.poll.packed.layout.index_lt hc).1 (Int.not_le.mpr hindex)
    | remove c => exact Poll.marked_remove h.marked hpoll
  · intro c
    dsimp only
    rw [(hevents c).1, (hevents c).2]
    exact (masks_setMasks op h.events_eq c).1
  · exact h.nodup
  · intro c hc
    refine ⟨(h.reported c hc).1, ?_⟩
    dsimp only
    rw [(hrevents c).1, (hrevents c).2, (masks_setMasks op h.events_eq c).2,
      (masks_setMasks op (fun c => (h.events_eq c).symm) c).2]
    exact (h.reported c hc).2
  · exact h.complete
  · exact h.size_eq
  · rcases h.filled_le with hzero | hle
    · exact .inl hzero
    · exact .inr (hle.trans (Nat.mul_le_mul_left 2 (Finset.card_le_card hknown)))

/-! ## Polls -/

/-- The pollers ask for the same. -/
theorem Sound.channel_eq (h : s.Sound fd) (ready : Readiness) (c : ι) :
    (s.poll.channels c).isReady ready = (s.epoll.channels c).isReady ready ∧
      ((s.poll.channels c).told ready).revents = ((s.epoll.channels c).told ready).revents := by
  have hfd : (s.poll.channels c).fd = (s.epoll.channels c).fd :=
    (h.poll.packed.fd_eq c).trans (h.epoll.shadowed.fd_eq c).symm
  constructor
  · rw [Channel.isReady, Channel.isReady, Channel.isNoneEvent, Channel.isNoneEvent, hfd,
      h.events_eq c]
  · rw [Channel.told, Channel.told, hfd, h.events_eq c]

/-- `Epoll` reports what `Poll` does, as far as there is room for it. -/
theorem Sound.wait (h : s.Sound fd) {ready : Readiness} {order : List ℤ}
    (hproper : s.Proper (.wait ready order)) :
    ∃ s', s.step (.wait ready order) = .ok s' ∧ s'.Sound fd := by
  obtain ⟨hnodup, hall⟩ := hproper
  obtain ⟨poll, pollActive, hpoll, hpollReports, hpollTold, hpacked, hmarked⟩ :=
    h.poll.packed.poll_ok h.marked ready
  obtain ⟨epoll, all, hreports, hepoll, hepollTold, hshadowed⟩ :=
    h.epoll.shadowed.poll_ok s.size ready hnodup
      (fun c hc => (h.epoll.shadowed.fd_eq c) ▸ hall c hc)
  have hperm : all.Perm pollActive := by
    refine (List.perm_ext_iff_of_nodup hreports.nodup hpollReports.nodup).mpr fun c => ?_
    rw [hreports.mem_iff, hpollReports.mem_iff, (h.channel_eq ready c).1]
  have hlength : (all.take s.size).length = min s.size all.length := List.length_take
  refine ⟨_, by rw [step, hpoll, hepoll]; rfl, ?_⟩
  constructor
  · refine ⟨hpacked, fun c hc hremove => ?_⟩
    dsimp only
    rw [hpollTold, tell_index]
    exact h.poll.fresh c hc hremove
  · refine ⟨hshadowed, fun c hc => ?_, h.epoll.removed⟩
    dsimp only
    rw [hepollTold, tell_index]
    exact h.epoll.fresh c hc
  · exact hmarked
  · intro c
    dsimp only
    rw [hpollTold, hepollTold, tell_events, tell_events]
    exact h.events_eq c
  · exact ⟨hpollReports.nodup, hreports.nodup.sublist (List.take_sublist _ _)⟩
  · intro c hc
    have hmem : c ∈ pollActive := hperm.mem_iff.mp (List.mem_of_mem_take hc)
    refine ⟨hmem, ?_⟩
    dsimp only
    rw [hpollTold, hepollTold, tell, tell, if_pos hmem, if_pos hc]
    exact (h.channel_eq ready c).2
  · dsimp only
    by_cases hfull : (all.take s.size).length = s.size
    · rw [if_pos hfull, hfull]
      exact .inr rfl
    · rw [List.take_of_length_le (by omega)]
      exact .inl hperm
  · dsimp only
    by_cases hfull : (all.take s.size).length = s.size
    · rw [if_pos hfull, if_pos hfull, h.size_eq, pow_succ, Nat.mul_comm 2, Nat.mul_assoc]
    · rw [if_neg hfull, if_neg hfull]
      exact h.size_eq
  · dsimp only
    by_cases hfull : (all.take s.size).length = s.size
    · have hcard : all.length ≤ s.known.card := by
        rw [← List.toFinset_card_of_nodup hreports.nodup]
        refine Finset.card_le_card fun c hc => registered_subset s.calls ?_
        exact ((hreports.mem_iff c).mp (List.mem_toFinset.mp hc)).1
      have hsize : s.size ≤ s.known.card := by omega
      rw [if_pos hfull, if_pos hfull]
      exact .inr (Nat.mul_le_mul_left 2 hsize)
    · rw [if_neg hfull, if_neg hfull]
      exact h.filled_le

/-- A proper action succeeds in both pollers and leaves them sound. -/
theorem Sound.step (h : s.Sound fd) {action : PollersAction ι} (hproper : s.Proper action) :
    ∃ s', s.step action = .ok s' ∧ s'.Sound fd := by
  cases action with
  | call op => exact h.call hproper
  | wait ready order => exact h.wait hproper

end

end Pollers

end Reactor
