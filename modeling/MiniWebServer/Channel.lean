import Mathlib

/-!
# Channels and their registration with epoll

A `Channel` holds the events that its owner wants to hear of. Every change goes
through `updateChannel`, which adds the descriptor to epoll when it is not
there: an update of a removed channel registers it again.
-/

namespace MiniWebServer

/-- The bits of an epoll event mask that the program uses. -/
structure Events where
  epollIn : Bool := false
  epollOut : Bool := false
  epollEt : Bool := false
deriving DecidableEq, Repr

structure Channel where
  /-- The events the owner wants to hear of. -/
  events : Events := {}
  inEpoll : Bool := false
  /-- The mask that the last `epoll_ctl` gave for the descriptor. -/
  interest : Events := {}
deriving DecidableEq, Repr

namespace Channel

/-- `Epoll::updateChannel`: `EPOLL_CTL_ADD` for a descriptor that is not in
epoll, else `EPOLL_CTL_MOD`. -/
def updateChannel (channel : Channel) : Channel :=
  { channel with inEpoll := true, interest := channel.events }

/-- `Epoll::removeChannel`. -/
def removeChannel (channel : Channel) : Channel :=
  if channel.inEpoll then { channel with inEpoll := false, interest := {} } else channel

def enableReading (channel : Channel) : Channel :=
  updateChannel { channel with events := { channel.events with epollIn := true, epollEt := true } }

def disableReading (channel : Channel) : Channel :=
  updateChannel { channel with events := { channel.events with epollIn := false } }

def enableWriting (channel : Channel) : Channel :=
  updateChannel { channel with events := { channel.events with epollOut := true } }

def disableWriting (channel : Channel) : Channel :=
  updateChannel { channel with events := { channel.events with epollOut := false } }

def disableAll (channel : Channel) : Channel :=
  updateChannel { channel with events := {} }

/-- `Channel::remove`. -/
def remove (channel : Channel) : Channel :=
  channel.removeChannel

/-- `epoll_wait` reports a registered descriptor, and only events of its mask. -/
def MayReport (channel : Channel) (revents : Events) : Prop :=
  channel.inEpoll = true ∧
    (revents.epollIn = true → channel.interest.epollIn = true) ∧
    (revents.epollOut = true → channel.interest.epollOut = true)

instance (channel : Channel) (revents : Events) : Decidable (channel.MayReport revents) :=
  inferInstanceAs (Decidable (_ ∧ _ ∧ _))

@[simp]
theorem inEpoll_remove (channel : Channel) : channel.remove.inEpoll = false := by
  rcases channel with ⟨events, _ | _, interest⟩ <;> rfl

@[simp]
theorem events_remove (channel : Channel) : channel.remove.events = channel.events := by
  rcases channel with ⟨events, _ | _, interest⟩ <;> rfl

end Channel

/-- The two callbacks of a channel. -/
inductive Callback where
  | readCallBack
  | writeCallBack
deriving DecidableEq, Repr

/-- The callbacks that `Channel::handle` makes, in its order. -/
def Events.handle (revents : Events) : List Callback :=
  (if revents.epollIn then [.readCallBack] else []) ++
    (if revents.epollOut then [.writeCallBack] else [])

end MiniWebServer
