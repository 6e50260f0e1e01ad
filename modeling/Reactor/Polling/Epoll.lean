import Mathlib.Data.List.Nodup
import Reactor.Epoll
import Reactor.Polling.Ready

/-!
# The report of `epoll`

`epoll_wait` goes through the ready descriptors in an order of its own and stores no more
events than there is room for in `events_`, which is doubled when it has been filled. The active
channels are as many of those that are ready as there is room for.
-/

namespace Reactor

open Transition

variable {ι : Type*}

/-- What `epoll_wait` has to say of a descriptor in the interest set. -/
def EpollEvent.polled (ready : Readiness) (fd : ℤ) (ep : EpollEvent ι) : Option (EpollEvent ι) :=
  if ready.revents fd ep.events = 0 then none
  else some { ep with events := ready.revents fd ep.events }

/-- `epoll_wait`, which finds the descriptors in the given order. -/
def InterestSet.wait (interest : InterestSet ι) (ready : Readiness) (order : List ℤ)
    (maxevents : ℕ) : List (EpollEvent ι) :=
  (order.filterMap fun fd => (interest fd).bind (EpollEvent.polled ready fd)).take maxevents

namespace Epoll

variable [DecidableEq ι]

/-- `Epoll::poll`, with the size of `events_` before and behind it. -/
def poll (epoll : Epoll ι) (size : ℕ) (ready : Readiness) (order : List ℤ) :
    Except EpollFault (Epoll ι × List ι × ℕ) := do
  let events := epoll.interest.wait ready order size
  let (epoll, active) ← epoll.fillActiveChannel events
  return (epoll, active, if events.length = size then 2 * size else size)

section

variable {fd : ι ↪ ℕ} {s : Finset ι} {epoll : Epoll ι} {ready : Readiness} {order : List ℤ}
  {c : ι}

/-- The channels of the events are told, in their order. -/
theorem fillActiveChannel_eq {events : List (EpollEvent ι)}
    (hmem : ∀ event ∈ events, (epoll.channels event.ptr).fd ∈ epoll.channelMap)
    (hevents : ∀ event ∈ events, event.events =
      ready.revents (epoll.channels event.ptr).fd (epoll.channels event.ptr).events)
    (hnodup : (events.map EpollEvent.ptr).Nodup) :
    epoll.fillActiveChannel events =
      .ok ({ epoll with channels := tell epoll.channels ready (events.map EpollEvent.ptr) },
        events.map EpollEvent.ptr) := by
  induction events generalizing epoll with
  | nil =>
    rw [List.map_nil, tell_nil]
    rfl
  | cons event events ih =>
    obtain ⟨hmemc, hmem⟩ := List.forall_mem_cons.mp hmem
    obtain ⟨heventc, hevents⟩ := List.forall_mem_cons.mp hevents
    rw [List.map_cons] at hnodup ⊢
    obtain ⟨hc, hnodup⟩ := List.nodup_cons.mp hnodup
    have hrec := @ih { epoll with
      channels := setRevents epoll.channels event.ptr event.events } (by simpa using hmem)
      (fun other hother => ?_) hnodup
    · rw [fillActiveChannel, if_pos hmemc]
      dsimp only
      rw [hrec, ok_bind, heventc, ← tell_cons hc]
      rfl
    · have hne : other.ptr ≠ event.ptr := by
        intro heq
        exact hc (heq ▸ List.mem_map_of_mem hother)
      dsimp only
      rw [setRevents, Function.update_of_ne hne]
      exact hevents other hother

omit [DecidableEq ι] in
/-- The interest set holds the registered channels with interest. -/
theorem Shadowed.interest_eq_some (h : epoll.Shadowed fd s) {k : ℤ} {ep : EpollEvent ι} :
    epoll.interest k = some ep ↔ ∃ c ∈ s, k = fd c ∧ (epoll.channels c).isNoneEvent = false ∧
      ep = ⟨(epoll.channels c).events, c⟩ := by
  constructor
  · intro hep
    by_cases hk : ∀ c ∈ s, (fd c : ℤ) ≠ k
    · rw [h.unregistered_eq k hk] at hep
      cases hep
    · obtain ⟨c, hc, rfl⟩ : ∃ c ∈ s, (fd c : ℤ) = k := by simpa using hk
      rw [h.registered_eq c hc] at hep
      split at hep
      · cases hep
      · next hinterest =>
        exact ⟨c, hc, rfl, by simpa using hinterest, (Option.some.inj hep).symm⟩
  · rintro ⟨c, hc, rfl, hinterest, rfl⟩
    rw [h.registered_eq c hc, hinterest]
    rfl

omit [DecidableEq ι] in
/-- What `epoll_wait` finds are the channels that are ready. -/
theorem Shadowed.polled_eq_some (h : epoll.Shadowed fd s) {k : ℤ} {event : EpollEvent ι} :
    (epoll.interest k).bind (EpollEvent.polled ready k) = some event ↔
      ∃ c ∈ s, k = fd c ∧ (epoll.channels c).isReady ready = true ∧
        event = ⟨ready.revents (epoll.channels c).fd (epoll.channels c).events, c⟩ := by
  rw [Option.bind_eq_some_iff]
  constructor
  · rintro ⟨ep, hep, hpolled⟩
    obtain ⟨c, hc, rfl, hinterest, rfl⟩ := h.interest_eq_some.mp hep
    rw [EpollEvent.polled] at hpolled
    split at hpolled
    · cases hpolled
    · next hsome =>
      refine ⟨c, hc, rfl, ?_, ?_⟩
      · rw [Channel.isReady, hinterest, h.fd_eq]
        simpa using hsome
      · rw [h.fd_eq]
        exact (Option.some.inj hpolled).symm
  · rintro ⟨c, hc, rfl, hready, rfl⟩
    have hboth : (epoll.channels c).isNoneEvent = false ∧
        ready.revents (epoll.channels c).fd (epoll.channels c).events ≠ 0 := by
      simpa [Channel.isReady] using hready
    refine ⟨_, h.interest_eq_some.mpr ⟨c, hc, rfl, hboth.1, rfl⟩, ?_⟩
    rw [EpollEvent.polled, ← h.fd_eq, if_neg hboth.2]

/-- The interest set does not depend on what the channels are told. -/
theorem Shadowed.told (h : epoll.Shadowed fd s) (ready : Readiness) (active : List ι) :
    Shadowed fd s { epoll with channels := tell epoll.channels ready active } where
  holds := h.holds.congr fun _ => tell_fd
  fd_eq c := tell_fd.trans (h.fd_eq c)
  index_eq c hc := by
    rw [tell_index, tell_isNoneEvent]
    exact h.index_eq c hc
  registered_eq c hc := by
    rw [tell_events, tell_isNoneEvent]
    exact h.registered_eq c hc
  unregistered_eq := h.unregistered_eq

omit [DecidableEq ι] in
/-- All events that `epoll_wait` could store. -/
theorem Shadowed.reports (h : epoll.Shadowed fd s) (ready : Readiness) (hnodup : order.Nodup)
    (hall : ∀ c ∈ s, (fd c : ℤ) ∈ order) :
    Reports ready epoll.channels s
      ((order.filterMap fun k => (epoll.interest k).bind (EpollEvent.polled ready k)).map
        EpollEvent.ptr) := by
  constructor
  · rw [List.map_filterMap]
    refine hnodup.filterMap fun k k' c hk hk' => ?_
    obtain ⟨event, hevent, rfl⟩ := Option.map_eq_some_iff.mp hk
    obtain ⟨event', hevent', hsame⟩ := Option.map_eq_some_iff.mp hk'
    obtain ⟨c, hc, rfl, -, rfl⟩ := h.polled_eq_some.mp hevent
    obtain ⟨c', hc', rfl, -, rfl⟩ := h.polled_eq_some.mp hevent'
    rw [show c' = c from hsame]
  · intro c
    simp only [List.mem_map, List.mem_filterMap]
    constructor
    · rintro ⟨event, ⟨k, hk, hevent⟩, rfl⟩
      obtain ⟨c, hc, rfl, hready, rfl⟩ := h.polled_eq_some.mp hevent
      exact ⟨hc, hready⟩
    · rintro ⟨hc, hready⟩
      exact ⟨_, ⟨fd c, hall c hc, h.polled_eq_some.mpr ⟨c, hc, rfl, hready, rfl⟩⟩, rfl⟩

/-- `Epoll::poll` reports as many of the channels that are ready as there is room for. -/
theorem Shadowed.poll_ok (h : epoll.Shadowed fd s) (size : ℕ) (ready : Readiness)
    (hnodup : order.Nodup) (hall : ∀ c ∈ s, (fd c : ℤ) ∈ order) :
    ∃ epoll' all, Reports ready epoll.channels s all ∧
      epoll.poll size ready order =
        .ok (epoll', all.take size, if (all.take size).length = size then 2 * size else size) ∧
      epoll'.channels = tell epoll.channels ready (all.take size) ∧ epoll'.Shadowed fd s := by
  have hreports := h.reports ready hnodup hall
  generalize hfound : (order.filterMap fun k => (epoll.interest k).bind
    (EpollEvent.polled ready k)) = found at hreports
  have hevent : ∀ event ∈ found.take size, ∃ c ∈ s,
      event = ⟨ready.revents (epoll.channels c).fd (epoll.channels c).events, c⟩ := by
    intro event hmem
    have hmem := List.mem_of_mem_take hmem
    rw [← hfound] at hmem
    obtain ⟨k, -, hk⟩ := List.mem_filterMap.mp hmem
    obtain ⟨c, hc, -, -, hevent⟩ := h.polled_eq_some.mp hk
    exact ⟨c, hc, hevent⟩
  have hmem : ∀ event ∈ found.take size, (epoll.channels event.ptr).fd ∈ epoll.channelMap := by
    intro event hmem
    obtain ⟨c, hc, rfl⟩ := hevent event hmem
    exact h.holds.mem hc
  have hevents : ∀ event ∈ found.take size, event.events =
      ready.revents (epoll.channels event.ptr).fd (epoll.channels event.ptr).events := by
    intro event hmem
    obtain ⟨c, -, rfl⟩ := hevent event hmem
    rfl
  have hfill := fillActiveChannel_eq hmem hevents (by
    rw [List.map_take]
    exact hreports.nodup.sublist (List.take_sublist _ _))
  rw [List.map_take] at hfill
  refine ⟨_, found.map EpollEvent.ptr, hreports, ?_, rfl, h.told ready _⟩
  rw [poll, InterestSet.wait, hfound, hfill, ok_bind, List.length_take, List.length_take,
    List.length_map]
  rfl

/-! ## The masks -/

variable {epoll' : Epoll ι}

omit [DecidableEq ι] in
/-- `epoll_ctl` touches no channel. -/
theorem channels_control {operation : EpollCtl}
    (hok : epoll.control c operation = .ok epoll') : epoll'.channels = epoll.channels := by
  rw [control] at hok
  split at hok
  · split at hok
    · obtain rfl := Except.ok.inj hok
      rfl
    · cases hok
  · cases hok

/-- Neither call changes the masks of a channel but as it is told to. -/
theorem masks_step {op : PollerOp ι} (hok : epoll.step op = .ok epoll') (d : ι) :
    (epoll'.channels d).masks = (op.setMasks epoll.channels d).masks := by
  cases op with
  | update c mask =>
    rw [step, update] at hok
    dsimp only at hok
    split at hok
    · rw [addChannel] at hok
      dsimp only at hok
      split at hok
      · split at hok
        · cases hok
        · rw [channels_control hok]
          exact masks_setIndex
      · split at hok
        · rw [channels_control hok]
          exact masks_setIndex
        · cases hok
    · split at hok
      · rw [changeChannel] at hok
        split at hok
        · obtain ⟨changed, hcontrol, hok⟩ := bind_eq_ok.mp hok
          obtain rfl := Except.ok.inj hok
          dsimp only
          rw [masks_setIndex, channels_control hcontrol]
          rfl
        · rw [channels_control hok]
          rfl
      · cases hok
  | remove c =>
    rw [step, remove] at hok
    split at hok
    · obtain rfl := Except.ok.inj hok
      rfl
    · cases hok

end

end Epoll

end Reactor
