import Sensor.Core.Logged
import Sensor.Reactor.LinkFrame
import Sensor.Reactor.InboundStream

/-!
# What a stream link does in an event

The functions of a link once more, with a log of the socket calls they make,
the callbacks they invoke and the states they pass through.  The log ends where
the link runs into undefined behaviour, which shows the events that do not come
to their end.
-/

namespace Sensor.StreamLink

open Logged

/-- The callbacks of a link. -/
inductive Callback where
  | onRead
  | onWriteCompleted
  | onDispose
  deriving DecidableEq

/-- What is logged: a receive with the number of bytes it came back with, or
its failure; a send with the state and the bytes pending before it, its result
and the bytes pending after it; the invocation of a callback and whether it was
set; `m_state` after it may have changed; `m_state` when receiving and sending
are over; and the close of the socket. -/
inductive Entry where
  | recv (got : Option ℕ)
  | send (m_state : LinkState) (before : ℕ) (got : Option ℕ) (after : ℕ)
  | callback (callback : Callback) (isSet : Bool)
  | state (m_state : LinkState)
  | processed (m_state : LinkState)
  | close
  deriving DecidableEq

/-- The number of bytes a receive came back with. -/
def RecvResult.got (buffer : Buffer) : RecvResult → Option ℕ
  | .received data => some (Sock.readv buffer data).length
  | .failed _ => none

/-- The number of bytes a send came back with. -/
def SendResult.got (buffer : Buffer) : SendResult → Option ℕ
  | .sent count => some (min count buffer.pending)
  | .failed _ => none

namespace Traced

/-- A link, whose state is logged. -/
def showing (self : StreamLink) : Logged Entry StreamLink :=
  tell (.state self.m_state) (some self)

def perform (self : StreamLink) (action : Action) : Logged Entry StreamLink :=
  (ofOption (self.perform action)).bind showing

def performAll (self : StreamLink) (actions : List Action) :
    Logged Entry StreamLink :=
  run perform self actions

def invoke (self : StreamLink) (callback : Callback) (isSet : Bool)
    (actions : List Action) : Logged Entry StreamLink :=
  (tell (.callback callback isSet) (if isSet then some self else none)).bind
    fun self => performAll self actions

def processRead (self : StreamLink) (result : RecvResult)
    (actions : List Action) : Logged Entry StreamLink :=
  (tell (.recv (RecvResult.got self.m_in result))
    (Sock.bufferedRecv self.m_in result)).bind fun (m_in, got) =>
      let self := { self with
        m_in
        received := self.received ++ RecvResult.bytes self.m_in result }
      (showing (self.afterRecv (RecvResult.errno result) got)).bind fun self =>
        if got > 0 ∧ self.m_in.pending ≠ 0 then
          (invoke self .onRead self.onRead actions).map fun self =>
            if self.m_in.pending = 0 then { self with m_in := self.m_in.reset }
            else self
        else pure self

def processWrite (self : StreamLink) (result : SendResult)
    (actions : List Action) : Logged Entry StreamLink :=
  let (m_out, got) := Sock.bufferedSend self.m_out result
  (tell (.send self.m_state self.m_out.pending
    (SendResult.got self.m_out result) m_out.pending)
    (some { self with
      m_out
      accepted := self.accepted ++ SendResult.bytes self.m_out result })).bind
    fun self =>
      (showing (self.afterCall .writeError (SendResult.errno result))).bind
        fun self =>
          if got > 0 ∧ self.m_out.pending = 0 then
            invoke { self with m_out := self.m_out.reset } .onWriteCompleted
              self.onWriteCompleted actions
          else pure self

def process (self : StreamLink) (event : Event) : Logged Entry StreamLink :=
  (if event.revents ≠ 0 ∨ evRead ≠ 0 then
    processRead self event.recv event.readActions
  else pure self).bind fun self =>
    if (event.revents ≠ 0 ∨ evWrite ≠ 0) ∧ self.m_state = .ok then
      processWrite self event.send event.writeActions
    else pure self

def destroy (self : StreamLink) : Logged Entry StreamLink :=
  if self.m_sock ≠ 0 then
    tell .close (some { self with closed := self.closed + 1 })
  else pure self

def settle (self : StreamLink) (event : Event) : Logged Entry StreamLink :=
  (tell (.processed self.m_state) (some self.prepareEvents)).bind
    fun (self, result) =>
      if result then pure self
      else
        (destroy self.stop).bind fun self =>
          invoke { self with disposed := self.disposed + 1 } .onDispose
            self.onDispose event.disposeActions

def onEvent (self : StreamLink) (event : Event) : Logged Entry StreamLink :=
  (process self event).bind fun self => settle self event

/-! ### The log changes nothing -/

variable {self : StreamLink}

theorem value_perform {action : Action} :
    (perform self action).value = self.perform action := by
  rw [perform, value_bind, value_ofOption]
  exact Option.bind_fun_some _

theorem value_performAll {actions : List Action} :
    (performAll self actions).value = self.performAll actions := by
  induction actions generalizing self with
  | nil => rfl
  | cons action actions ih =>
      rw [performAll, run, value_bind, value_perform, StreamLink.performAll,
        List.foldlM_cons]
      exact congrArg _ (funext fun _ => ih)

theorem value_invoke {callback : Callback} {isSet : Bool}
    {actions : List Action} :
    (invoke self callback isSet actions).value = self.invoke isSet actions := by
  rw [invoke, value_bind, value_tell, StreamLink.invoke]
  split
  · rw [Option.bind_some, value_performAll]
  · rfl

theorem value_processRead {result : RecvResult} {actions : List Action} :
    (processRead self result actions).value =
      self.processRead result actions := by
  rw [processRead, StreamLink.processRead, value_bind, value_tell]
  congr 1
  funext received
  rw [value_bind]
  simp only [showing, value_tell, Option.bind_some, apply_ite value, value_map,
    value_invoke]
  rfl

theorem value_processWrite {result : SendResult} {actions : List Action} :
    (processWrite self result actions).value =
      self.processWrite result actions := by
  simp only [processWrite, StreamLink.processWrite, showing, value_bind,
    value_tell, Option.bind_some, apply_ite value, value_invoke]
  rfl

theorem value_process {event : Event} :
    (process self event).value = self.process event := by
  rw [process, StreamLink.process, value_bind, apply_ite value,
    value_processRead]
  congr 1
  funext middle
  rw [apply_ite value, value_processWrite]
  rfl

theorem value_destroy : (destroy self).value = some self.destroy := by
  rw [destroy, StreamLink.destroy]
  split <;> rfl

theorem value_settle {event : Event} :
    (settle self event).value = self.settle event := by
  rw [settle, StreamLink.settle, value_bind, value_tell, Option.bind_some]
  obtain ⟨prepared, result⟩ := self.prepareEvents
  cases result with
  | true => rfl
  | false =>
      simp only [Bool.false_eq_true, if_false, value_bind, value_destroy,
        Option.bind_some, value_invoke]

theorem value_onEvent {event : Event} :
    (onEvent self event).value = self.onEvent event := by
  rw [onEvent, StreamLink.onEvent, value_bind, value_process]
  congr 1
  funext middle
  exact value_settle

end Traced

end Sensor.StreamLink
