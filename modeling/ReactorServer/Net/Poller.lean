import ReactorServer.Cpp
import ReactorServer.Lib.Runs
import Mathlib.Data.BitVec
import Mathlib.Logic.Function.Basic
import Std.Data.ExtTreeMap

/-!
# Channels and the poller they are registered with

A channel is a descriptor with the events its owner is interested in; the poller keeps the map
`channels_` from descriptors to channels and hands every change to `epoll_ctl`.  A channel is named
by its address, of type `κ`; the objects the addresses designate are `chan`.  `kernel` is the
interest list the kernel keeps for the epoll instance, and `ctl` records the `epoll_ctl` calls made,
each with whether the descriptor had an entry before the call.
-/

namespace ReactorServer.Net.Poller

open ReactorServer.Cpp ReactorServer.Lib.Runs

/-! ### Event masks -/

/-- A set of events, in the bits of an `int`. -/
abbrev Mask := BitVec 32

def EPOLLIN : Mask := 0x001#32
def EPOLLPRI : Mask := 0x002#32
def EPOLLOUT : Mask := 0x004#32
def EPOLLERR : Mask := 0x008#32
def EPOLLHUP : Mask := 0x010#32
def EPOLLET : Mask := 0x80000000#32

def CNoneEvent : Mask := 0#32
def CReadEvent : Mask := EPOLLIN ||| EPOLLPRI ||| EPOLLHUP ||| EPOLLET
def CWriteEvent : Mask := EPOLLOUT

/-! ### Channels -/

/-- How the poller knows a channel. -/
inductive Status
  | CNew
  | CAdded
  | CDeleted
  deriving DecidableEq, Repr

/-- The fields of a channel that its own functions and the poller's read and write. -/
structure Channel where
  fd : ℤ
  status : Status
  events : Mask
  rcvEvents : Mask
  addToLoop : Bool
  deriving DecidableEq, Repr

namespace Channel

/-- The constructor. -/
def new (fd : ℤ) : Channel := ⟨fd, .CNew, CNoneEvent, 0#32, false⟩

def isReading (ch : Channel) : Prop := ch.events &&& CReadEvent ≠ 0
def isWriting (ch : Channel) : Prop := ch.events &&& CWriteEvent ≠ 0
def isNonEvent (ch : Channel) : Prop := ch.events = CNoneEvent

instance (ch : Channel) : Decidable ch.isReading := by unfold isReading; infer_instance
instance (ch : Channel) : Decidable ch.isWriting := by unfold isWriting; infer_instance
instance (ch : Channel) : Decidable ch.isNonEvent := by unfold isNonEvent; infer_instance

end Channel

/-! ### The kernel's side -/

/-- The operations of `epoll_ctl`. -/
inductive CtlOp
  | add
  | mod
  | del
  deriving DecidableEq, Repr

/-- An `epoll_ctl` call: the operation, the descriptor, and whether it had an entry. -/
structure Ctl where
  op : CtlOp
  fd : ℤ
  present : Bool
  deriving DecidableEq, Repr

/-- The interest list: per descriptor the `data.ptr` and the mask registered for it. -/
abbrev Interest (κ : Type) := ℤ → Option (κ × Mask)

/-- What `epoll_ctl` does to the interest list: `EPOLL_CTL_ADD` on a present descriptor and the
other two on an absent one fail and change nothing. -/
def epollCtl {κ : Type} (k : Interest κ) (op : CtlOp) (fd : ℤ) (ev : κ × Mask) : Interest κ :=
  match op, k fd with
  | .add, none => Function.update k fd (some ev)
  | .mod, some _ => Function.update k fd (some ev)
  | .del, some _ => Function.update k fd none
  | _, _ => k

/-! ### The poller -/

/-- A poller with the channels of its loop. -/
structure EpollPoller (κ : Type) where
  chan : κ → Channel
  channels : Std.ExtTreeMap ℤ κ
  kernel : Interest κ
  ctl : List Ctl

namespace EpollPoller

variable {κ : Type} [DecidableEq κ]

/-- A new poller in a loop whose channels are not registered yet. -/
def new (fd : κ → ℤ) : EpollPoller κ := ⟨fun c => .new (fd c), ∅, fun _ => none, []⟩

/-- Write to the channel object `c`. -/
def modifyChan (f : Channel → Channel) (c : κ) (p : EpollPoller κ) : EpollPoller κ :=
  { p with chan := Function.update p.chan c (f (p.chan c)) }

def setStatus (st : Status) : κ → EpollPoller κ → EpollPoller κ :=
  modifyChan fun ch => { ch with status := st }

/-- `EpollPoller::update`: one `epoll_ctl` call. -/
def update (op : CtlOp) (c : κ) (p : EpollPoller κ) : EpollPoller κ :=
  let fd := (p.chan c).fd
  { p with
    kernel := epollCtl p.kernel op fd (c, EPOLLET ||| (p.chan c).events)
    ctl := p.ctl ++ [⟨op, fd, (p.kernel fd).isSome⟩] }

def updateChannel (c : κ) (p : EpollPoller κ) : Except Fault (EpollPoller κ) := do
  let index := (p.chan c).status
  let fd := (p.chan c).fd
  if index = .CNew ∨ index = .CDeleted then
    let p ← if index = .CNew then do
        assert .updateChannel (p.channels[fd]? = none)
        pure { p with channels := p.channels.insert fd c }
      else do
        assert .updateChannel (p.channels[fd]? ≠ none)
        assert .updateChannel (p.channels[fd]? = some c)
        pure p
    pure ((p.setStatus .CAdded c).update .add c)
  else do
    assert .updateChannel (p.channels[fd]? ≠ none)
    -- `assert(channels_[fd] = channel)`: the assignment is made, its value is not null
    let p := { p with channels := p.channels.insert fd c }
    assert .updateChannel ((p.chan c).status = .CAdded)
    if (p.chan c).isNonEvent then
      pure ((p.update .del c).setStatus .CDeleted c)
    else
      pure (p.update .mod c)

def removeChannel (c : κ) (p : EpollPoller κ) : Except Fault (EpollPoller κ) := do
  let fd := (p.chan c).fd
  let index := (p.chan c).status
  assert .removeChannel (p.chan c).isNonEvent
  assert .removeChannel (p.channels[fd]? ≠ none)
  assert .removeChannel (p.channels[fd]? = some c)
  assert .removeChannel (index = .CAdded ∨ index = .CDeleted)
  let p := { p with channels := p.channels.erase fd }
  let p := if index = .CAdded then p.update .del c else p
  pure (p.setStatus .CNew c)

/-! ### The operations of `Channel` that reach the poller -/

/-- `Channel::update`. -/
def channelUpdate (c : κ) (p : EpollPoller κ) : Except Fault (EpollPoller κ) :=
  updateChannel c (p.modifyChan (fun ch => { ch with addToLoop := true }) c)

/-- Change the events of `c` and tell the poller: the common body of the five operations below. -/
def setEvents (f : Mask → Mask) (c : κ) (p : EpollPoller κ) : Except Fault (EpollPoller κ) :=
  channelUpdate c (p.modifyChan (fun ch => { ch with events := f ch.events }) c)

def enableRead : κ → EpollPoller κ → Except Fault (EpollPoller κ) := setEvents (· ||| CReadEvent)
def disableRead : κ → EpollPoller κ → Except Fault (EpollPoller κ) := setEvents (· &&& ~~~CReadEvent)
def enableWrite : κ → EpollPoller κ → Except Fault (EpollPoller κ) := setEvents (· ||| CWriteEvent)
def disableWrite : κ → EpollPoller κ → Except Fault (EpollPoller κ) := setEvents (· &&& CWriteEvent)
def disableAll : κ → EpollPoller κ → Except Fault (EpollPoller κ) := setEvents fun _ => CNoneEvent

/-- `Channel::remove`. -/
def remove (c : κ) (p : EpollPoller κ) : Except Fault (EpollPoller κ) := do
  assert .channelRemove (p.chan c).isNonEvent
  removeChannel c (p.modifyChan (fun ch => { ch with addToLoop := false }) c)

end EpollPoller

end ReactorServer.Net.Poller
