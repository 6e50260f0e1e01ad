import Reactor.Poller

/-!
# What a poller is for

A poller is asked which of the registered channels with interest are ready. The system reports
the events that a channel waits for and, unasked, errors and hang-ups. The report does not
depend on the tables that a poller keeps.
-/

namespace Reactor

/-- The events at the open descriptors. The sign bit of a `short` is no event. -/
abbrev Readiness := { events : ℤ → EventMask // ∀ fd, (events fd).msb = false }

/-- What the system reports for a descriptor. -/
def Readiness.revents (ready : Readiness) (fd : ℤ) (events : EventMask) : EventMask :=
  ready.1 fd &&& (events ||| pollErr ||| pollHup)

/-- A report is positive as a `short` unless it is empty. -/
theorem Readiness.revents_pos_iff (ready : Readiness) (fd : ℤ) (events : EventMask) :
    0 < (ready.revents fd events).toInt ↔ ready.revents fd events ≠ 0 := by
  have hmsb : (ready.revents fd events).msb = false := by
    rw [revents, BitVec.msb_and, ready.2 fd, Bool.false_and]
  have hzero : (0 : EventMask).toNat = 0 := rfl
  rw [BitVec.toInt_eq_toNat_of_msb hmsb, ne_eq, ← BitVec.toNat_inj, hzero]
  omega

/-- There is something to report of a channel with interest. -/
def Channel.isReady (channel : Channel) (ready : Readiness) : Bool :=
  !channel.isNoneEvent && ready.revents channel.fd channel.events != 0

/-- The channel is told what there is to report. -/
def Channel.told (channel : Channel) (ready : Readiness) : Channel :=
  { channel with revents := ready.revents channel.fd channel.events }

/-- The channels that are ready, each of them once. -/
structure Reports {ι : Type*} (ready : Readiness) (channels : ι → Channel) (s : Finset ι)
    (active : List ι) : Prop where
  nodup : active.Nodup
  mem_iff : ∀ c, c ∈ active ↔ c ∈ s ∧ (channels c).isReady ready = true

variable {ι : Type*} [DecidableEq ι]

/-- The channels when some of them have been told. -/
def tell (channels : ι → Channel) (ready : Readiness) (active : List ι) (c : ι) : Channel :=
  if c ∈ active then (channels c).told ready else channels c

/-- What a call of a poller makes of the masks: only an update sets one. -/
def PollerOp.setMasks (op : PollerOp ι) (channels : ι → Channel) : ι → Channel :=
  match op with
  | .update c mask => setEvents channels c mask
  | .remove _ => channels

/-- The masks of a channel. -/
def Channel.masks (channel : Channel) : EventMask × EventMask := (channel.events, channel.revents)

section

variable {channels : ι → Channel} {ready : Readiness} {active : List ι} {c d : ι}

/-- Nothing is told where nothing is active. -/
@[simp] theorem tell_nil : tell channels ready [] = channels := by
  funext c
  exact if_neg (List.not_mem_nil)

/-- One channel is told before the others. -/
theorem tell_cons (hc : c ∉ active) :
    tell (setRevents channels c (ready.revents (channels c).fd (channels c).events)) ready active =
      tell channels ready (c :: active) := by
  funext d
  by_cases hd : d = c
  · subst hd
    simp [tell, hc, setRevents, Channel.told]
  · simp [tell, hd, setRevents]

/-- Telling changes no descriptor. -/
@[simp] theorem tell_fd : (tell channels ready active c).fd = (channels c).fd := by
  rw [tell]
  split
  · rfl
  · rfl

/-- Telling changes no interest. -/
@[simp] theorem tell_events : (tell channels ready active c).events = (channels c).events := by
  rw [tell]
  split
  · rfl
  · rfl

/-- Telling changes no index. -/
@[simp] theorem tell_index : (tell channels ready active c).index = (channels c).index := by
  rw [tell]
  split
  · rfl
  · rfl

/-- Telling disables no channel. -/
@[simp] theorem tell_isNoneEvent :
    (tell channels ready active c).isNoneEvent = (channels c).isNoneEvent := by
  rw [Channel.isNoneEvent, Channel.isNoneEvent, tell_events]

/-- The masks do not depend on the index. -/
@[simp] theorem masks_setIndex {index : ℤ} :
    (setIndex channels c index d).masks = (channels d).masks := by
  by_cases hd : d = c
  · subst hd
    simp [setIndex, Channel.masks]
  · simp [setIndex, hd]

/-- Whether a channel is ready has nothing to do with what it was told. -/
@[simp] theorem isReady_setRevents {revents : EventMask} :
    (setRevents channels c revents d).isReady ready = (channels d).isReady ready := by
  by_cases hd : d = c
  · subst hd
    simp [setRevents, Channel.isReady, Channel.isNoneEvent]
  · simp [setRevents, hd]

end

end Reactor
