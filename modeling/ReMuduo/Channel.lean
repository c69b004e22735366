import Mathlib.Tactic.Common

/-! # Channels and the poller

`Channel` (`include/Channel.h`, `src/base/Channel.cpp`) and the part of `EpollPoller`
(`src/base/EpollPoller.cpp`) that registers it.  The channels of a loop have distinct
open file descriptors, so what the poller and the kernel hold for one channel depends
on that channel only: its entry in `channels_` and its entry in the epoll set are kept
with it. -/
namespace ReMuduo

/-- The events of interest of a channel: `kReadEvent` (`EPOLLIN | EPOLLPRI`) and
`kWriteEvent` (`EPOLLOUT`). -/
structure Events where
  read : Bool
  write : Bool
deriving DecidableEq

/-- `kNoneEvent`. -/
def kNoneEvent : Events := ⟨false, false⟩

/-- The state of a channel in the poller. -/
inductive Index
  | kNew
  | kAdded
  | kDeleted
deriving DecidableEq

/-- The operations of `epoll_ctl`. -/
inductive EpollOp
  | add
  | mod
  | del
deriving DecidableEq

/-- `epoll_ctl` on one file descriptor: `EPOLL_CTL_ADD` fails if it is in the set, the
other two if it is not, and a failed call changes nothing. -/
def epollCtl (entry : Option Events) (operation : EpollOp) (events : Events) : Option Events :=
  match operation, entry with
  | .add, none => some events
  | .add, some e => some e
  | .mod, some _ => some events
  | .mod, none => none
  | .del, _ => none

/-- A channel, with `mapped`: whether `channels_` has it under its file descriptor, and
`epoll`: the entry of its file descriptor in the epoll set. -/
structure Channel where
  events : Events
  index : Index
  mapped : Bool
  epoll : Option Events
deriving DecidableEq

namespace Channel

/-- A new channel. -/
def initial : Channel := ⟨kNoneEvent, .kNew, false, none⟩

def isNoneEvent (ch : Channel) : Bool := ch.events == kNoneEvent

def isWriting (ch : Channel) : Bool := ch.events.write

/-- `EpollPoller::update(operation, channel)`. -/
def updateEpoll (ch : Channel) (operation : EpollOp) : Channel :=
  { ch with epoll := epollCtl ch.epoll operation ch.events }

/-- `EpollPoller::updateChannel(channel)`. -/
def updateChannel (ch : Channel) : Channel :=
  match ch.index with
  | .kNew => ({ ch with mapped := true, index := .kAdded } : Channel).updateEpoll .add
  | .kDeleted => ({ ch with index := .kAdded } : Channel).updateEpoll .add
  | .kAdded =>
    if ch.isNoneEvent then { ch.updateEpoll .del with index := .kDeleted }
    else ch.updateEpoll .mod

/-- `EpollPoller::removeChannel(channel)`. -/
def removeChannel (ch : Channel) : Channel :=
  let ch := { ch with mapped := false }
  let ch := if ch.index = .kAdded then ch.updateEpoll .del else ch
  { ch with index := .kNew }

def enableReading (ch : Channel) : Channel :=
  ({ ch with events := { ch.events with read := true } } : Channel).updateChannel

def disableReading (ch : Channel) : Channel :=
  ({ ch with events := { ch.events with read := false } } : Channel).updateChannel

def enableWriting (ch : Channel) : Channel :=
  ({ ch with events := { ch.events with write := true } } : Channel).updateChannel

def disableWriting (ch : Channel) : Channel :=
  ({ ch with events := { ch.events with write := false } } : Channel).updateChannel

def disableAll (ch : Channel) : Channel :=
  ({ ch with events := kNoneEvent } : Channel).updateChannel

@[simp] theorem events_updateChannel (ch : Channel) : ch.updateChannel.events = ch.events := by
  unfold updateChannel
  split
  · rfl
  · rfl
  · split <;> rfl

@[simp] theorem isWriting_enableReading (ch : Channel) :
    ch.enableReading.isWriting = ch.isWriting := by
  simp [enableReading, isWriting]

@[simp] theorem isWriting_enableWriting (ch : Channel) : ch.enableWriting.isWriting = true := by
  simp [enableWriting, isWriting]

@[simp] theorem isWriting_disableWriting (ch : Channel) :
    ch.disableWriting.isWriting = false := by
  simp [disableWriting, isWriting]

@[simp] theorem isWriting_disableAll (ch : Channel) : ch.disableAll.isWriting = false := by
  simp [disableAll, isWriting, kNoneEvent]

@[simp] theorem isWriting_removeChannel (ch : Channel) :
    ch.removeChannel.isWriting = ch.isWriting := by
  simp only [removeChannel]
  split <;> rfl

theorem epoll_removeChannel {ch : Channel} (h : ch.epoll = none) :
    ch.removeChannel.epoll = none := by
  simp only [removeChannel]
  split
  · rfl
  · exact h

end Channel

/-! ## Active events -/

/-- `Revents`, the events the kernel has reported for a channel. -/
structure Revents where
  epollin : Bool
  epollpri : Bool
  epollout : Bool
  epollerr : Bool
  epollhup : Bool
  epollrdhup : Bool
deriving DecidableEq

/-- The callbacks of a channel. -/
inductive ChannelCallback
  | close
  | error
  | read
  | write
deriving DecidableEq

/-- `handleEventWithGuard`: the callbacks that are called for the events reported, in
order. -/
def Revents.callbacks (r : Revents) : List ChannelCallback :=
  (if r.epollhup && !r.epollin then [.close] else []) ++
    (if r.epollerr then [.error] else []) ++
    (if r.epollin || r.epollpri || r.epollrdhup then [.read] else []) ++
    (if r.epollout then [.write] else [])

end ReMuduo
