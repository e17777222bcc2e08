import Mathlib.Logic.Function.Basic
import Sensor.Reactor.StreamLink

/-!
# The connections of the sensor service

`TcpAcceptor::onEvent` accepts a connection and asks `onAccept` for a link;
`SensorService::onConnectionAccepted` creates one in `activeChannels` unless the
address is there already.  The link gets a read callback that does nothing, and
no other callback.
-/

namespace Sensor.SensorService

variable {Address : Type*}

/-- The channels of the service, and which descriptors `accept` returned and
nobody closed since. -/
structure State (Address : Type*) where
  activeChannels : Address → Option StreamLink
  isOpen : ℤ → Bool

/-- An event of the loop.  `accept` returned a descriptor and the address the
code built from it, or it failed and left the address uninitialised; both come
with what the watcher of a new link holds before it is initialised.  Or the
loop runs the watcher of a link. -/
inductive Label (Address : Type*) where
  | accept (fd : ℤ) (address : Address) (handler : Watcher)
  | acceptFailed (garbage : Address) (handler : Watcher)
  | link (address : Address) (event : StreamLink.Event)

/-- A service without connections. -/
def State.initial : State Address where
  activeChannels := fun _ => none
  isOpen := fun _ => false

/-- `onDataRead` makes no call on the link. -/
def onDataRead : List StreamLink.Action := []

variable [DecidableEq Address]

/-- `onConnectionAccepted`, and whether it returned a link. -/
def onConnectionAccepted (state : State Address) (address : Address)
    (handler : Watcher) : State Address × Bool :=
  match state.activeChannels address with
  | some _ => (state, false)
  | none =>
      let link := (StreamLink.new handler).setReadCallback.setReceiving true
      ({ state with
        activeChannels :=
          Function.update state.activeChannels address (some link) }, true)

/-- `onConnectionEstablished`, the same for a connection of the connector. -/
def onConnectionEstablished (state : State Address) (address : Address)
    (handler : Watcher) : State Address × Bool :=
  match state.activeChannels address with
  | some _ => (state, false)
  | none =>
      let link := (StreamLink.new handler).setReadCallback.setReceiving true
      ({ state with
        activeChannels :=
          Function.update state.activeChannels address (some link) }, true)

/-- A change of the link a pointer into `activeChannels` leads to. -/
def State.modify (state : State Address) (address : Address)
    (change : StreamLink → StreamLink) : State Address :=
  { state with
    activeChannels := Function.update state.activeChannels address
      ((state.activeChannels address).map change) }

/-- `TcpAcceptor::onEvent` behind its `accept`. -/
def onAcceptorEvent (state : State Address) (sock : ℤ) (address : Address)
    (handler : Watcher) : State Address :=
  match onConnectionAccepted state address handler with
  | (state, true) => state.modify address fun link => (link.init sock).start
  | (state, false) => state

/-- The descriptors open after an event of a link that may have closed its
socket. -/
def openAfter (isOpen : ℤ → Bool) (link next : StreamLink) : ℤ → Bool :=
  if link.closed < next.closed then Function.update isOpen link.m_sock false
  else isOpen

/-- The events that can happen: `accept` returns a descriptor that is not in
use, and the loop runs the active watcher of a started link. -/
def Enabled (state : State Address) : Label Address → Prop
  | .accept fd _ _ => 0 ≤ fd ∧ state.isOpen fd = false
  | .acceptFailed _ _ => True
  | .link address _ => ∃ link, state.activeChannels address = some link ∧
      link.m_reactor = true ∧ link.m_handler.active = true

/-- The service after an event, or `none` where it runs into undefined
behaviour. -/
def step (state : State Address) : Label Address → Option (State Address)
  | .accept fd address handler =>
      some (onAcceptorEvent
        { state with isOpen := Function.update state.isOpen fd true }
        fd address handler)
  | .acceptFailed garbage handler =>
      some (onAcceptorEvent state (-1) garbage handler)
  | .link address event =>
      (state.activeChannels address).bind fun link =>
        (link.onEvent { event with readActions := onDataRead }).map fun next =>
          { activeChannels :=
              Function.update state.activeChannels address (some next)
            isOpen := openAfter state.isOpen link next }

end Sensor.SensorService
