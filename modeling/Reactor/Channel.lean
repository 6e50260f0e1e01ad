import Mathlib.Data.Int.Basic

/-!
# Channels

A `Channel` carries the events that a file descriptor is watched for. Its setters change
the mask and hand the channel to the poller, whose part is modelled on its own. A mask
is a word of 16 bits, as in `struct pollfd`.
-/

namespace Reactor

/-- The events of `poll` and `epoll`. -/
abbrev EventMask := BitVec 16

/-- `POLLIN`. -/
def pollIn : EventMask := 0x001

/-- `POLLOUT`. -/
def pollOut : EventMask := 0x004

/-- `POLLERR`. -/
def pollErr : EventMask := 0x008

/-- `POLLHUP`. -/
def pollHup : EventMask := 0x010

/-- `kRead`. -/
def kRead : EventMask := pollIn ||| pollErr

/-- `kWrite`. -/
def kWrite : EventMask := pollOut

/-- `kNone`. -/
def kNone : EventMask := 0

/-- The test `mask & flags` of an `if`. -/
def EventMask.has (mask flags : EventMask) : Bool := mask &&& flags != 0

/-- `Channel`. -/
structure Channel where
  fd : ℤ
  events : EventMask := kNone
  revents : EventMask := 0
  index : ℤ := -1
  deriving DecidableEq, Repr

namespace Channel

/-- `Channel::enableReading`. -/
def enableReading (c : Channel) : Channel := { c with events := c.events ||| kRead }

/-- `Channel::enableWriting`. -/
def enableWriting (c : Channel) : Channel := { c with events := c.events ||| kWrite }


/-- `Channel::disableWrite`. -/
def disableWrite (c : Channel) : Channel := { c with events := c.events &&& ~~~kWrite }

/-- `Channel::disableAll`. -/
def disableAll (c : Channel) : Channel := { c with events := kNone }

/-- `Channel::isWriting`. -/
def isWriting (c : Channel) : Bool := c.events.has kWrite

/-- `Channel::isNoneEvent`. -/
def isNoneEvent (c : Channel) : Bool := c.events == kNone

/-- A channel is writing once that has been enabled. -/
@[simp] theorem isWriting_enableWriting (c : Channel) : c.enableWriting.isWriting = true := by
  have h : (c.events ||| kWrite) &&& kWrite = kWrite := by
    ext i
    simp only [BitVec.getElem_and, BitVec.getElem_or]
    cases c.events[i] <;> simp
  simp only [isWriting, enableWriting, EventMask.has, h]
  decide

end Channel

end Reactor
