import Sensor.Reactor.Buffer

/-!
# Stream links

A `StreamLink` couples a socket with an input and an output buffer and a libev
watcher.  `onEvent` receives and sends what the socket offers, hands control to
the callbacks of the client, and recomputes the event mask or disposes of the
link.

Calls that run into undefined behaviour (an access outside a buffer, the
invocation of an unset callback) return `none`.
-/

namespace Sensor

/-- The values of `errno` the link tells apart. -/
inductive Errno where
  | eagain
  | ewouldblock
  | eintr
  | other (code : ℕ)
  deriving DecidableEq

/-- `errno == EAGAIN || errno == EWOULDBLOCK || errno == EINTR`. -/
def Errno.transient : Errno → Bool
  | .other _ => false
  | _ => true

/-- The value `(size_t) -1` a failed call comes back as. -/
def failedSize : ℕ := 2 ^ 64 - 1

/-! ## The socket calls -/

/-- What the socket has for a `readv`: bytes, none at the end of the stream, or
an error. -/
inductive RecvResult where
  | received (data : List UInt8)
  | failed (errno : Errno)

/-- What the socket does with a `send`: how many bytes it would take, or an
error. -/
inductive SendResult where
  | sent (count : ℕ)
  | failed (errno : Errno)

namespace Sock

/-- The size of the second vector of `bufferedRecv`. -/
def extension : ℕ := 4096

/-- The bytes `readv` delivers into the rest of the buffer and the extension. -/
def readv (buffer : Buffer) (data : List UInt8) : List UInt8 :=
  data.take (buffer.writable + extension)

/-- `bufferedRecv` on received bytes: those that fit are in the buffer already
when `got` is known, and the rest is appended from the extension. -/
def recvBytes (buffer : Buffer) (bytes : List UInt8) : Option Buffer :=
  let writable := buffer.writable
  let got := bytes.length
  (buffer.store (bytes.take writable)).bind fun buffer =>
    if got > writable then
      (buffer.written got).append (bytes.drop writable)
    else if got > 0 then some (buffer.written got)
    else some buffer

def bufferedRecv (buffer : Buffer) : RecvResult → Option (Buffer × ℕ)
  | .received data =>
      let bytes := readv buffer data
      (recvBytes buffer bytes).map fun buffer => (buffer, bytes.length)
  | .failed _ => some (buffer, failedSize)

/-- `bufferedSend`; a socket takes no more than it is offered. -/
def bufferedSend (buffer : Buffer) : SendResult → Buffer × ℕ
  | .sent count =>
      let got := min count buffer.pending
      (if got > 0 then buffer.processed got else buffer, got)
  | .failed _ => (buffer, failedSize)

end Sock

/-! ## The watcher -/

/-- An event mask: the bits `EV_READ` and `EV_WRITE`. -/
structure EventMask where
  read : Bool
  write : Bool
  deriving DecidableEq

/-- The libev watcher `ev_io`: its descriptor, its mask and whether it is
active. -/
structure Watcher where
  fd : ℤ
  events : EventMask
  active : Bool
  deriving DecidableEq

namespace Watcher

/-- `ev_init`, which sets neither the descriptor nor the mask. -/
def init (self : Watcher) : Watcher :=
  { self with active := false }

/-- `ev_io_set`. -/
def set (self : Watcher) (fd : ℤ) (events : EventMask) : Watcher :=
  { self with fd, events }

/-- `ev_io_start`. -/
def start (self : Watcher) : Watcher :=
  { self with active := true }

/-- `ev_io_stop`. -/
def stop (self : Watcher) : Watcher :=
  { self with active := false }

/-- `EventLoop::set_io_events`. -/
def setIoEvents (self : Watcher) (events : EventMask) : Watcher :=
  let isActive := self.active
  let self := if isActive then self.stop else self
  let self := self.set self.fd events
  if isActive then self.start else self

end Watcher

/-! ## The link -/

/-- The enumeration `State`. -/
inductive LinkState where
  | ok
  | disconnect
  | readError
  | writeError
  deriving DecidableEq

/-- The fields of the class; `onRead`, `onWriteCompleted` and `onDispose` say
whether the callback was set, `m_reactor` whether the pointer to the loop was,
and `saved_errno` is `none` for zero.  The last fields are bookkeeping: the
bytes received from the socket, those the client took from `m_in`, those it
wrote, those the socket accepted, and how often the socket was closed and the
link disposed of. -/
structure StreamLink where
  m_handler : Watcher
  m_state : LinkState
  saved_errno : Option Errno
  m_receive : Bool
  m_sock : ℤ
  onRead : Bool
  onWriteCompleted : Bool
  onDispose : Bool
  m_in : Buffer
  m_out : Buffer
  m_reactor : Bool
  received : List UInt8
  consumed : List UInt8
  produced : List UInt8
  accepted : List UInt8
  closed : ℕ
  disposed : ℕ

namespace StreamLink

/-- The constructor; the watcher is not initialised. -/
def new (handler : Watcher) : StreamLink where
  m_handler := handler
  m_state := .ok
  saved_errno := none
  m_receive := false
  m_sock := 0
  onRead := false
  onWriteCompleted := false
  onDispose := false
  m_in := .new 2048
  m_out := .new 2048
  m_reactor := false
  received := []
  consumed := []
  produced := []
  accepted := []
  closed := 0
  disposed := 0

def setReadCallback (self : StreamLink) : StreamLink :=
  { self with onRead := true }

def setWriteCallback (self : StreamLink) : StreamLink :=
  { self with onWriteCompleted := true }

def setDisposeCallback (self : StreamLink) : StreamLink :=
  { self with onDispose := true }

def isSending (self : StreamLink) : Bool :=
  self.m_out.pending ≠ 0

def isReceiving (self : StreamLink) : Bool :=
  self.m_receive

def setReceiving (self : StreamLink) (val : Bool) : StreamLink :=
  if self.m_state = .ok then { self with m_receive := val } else self

def makeDisconnect (self : StreamLink) : StreamLink :=
  if self.m_state = .ok then { self with m_state := .disconnect } else self

/-- `advance(l)` behind a `peek` that read the bytes. -/
def advance (self : StreamLink) (l : ℕ) : StreamLink :=
  { self with
    m_in := self.m_in.processed l
    consumed := self.consumed ++ Region.read self.m_in.memory self.m_in.r l }

def write (self : StreamLink) (data : List UInt8) : Option StreamLink :=
  (self.m_out.append data).map fun m_out =>
    { self with m_out, produced := self.produced ++ data }

/-- `init(Socket)`. -/
def init (self : StreamLink) (sock : ℤ) : StreamLink :=
  { self with m_sock := sock, m_handler := self.m_handler.init }

/-- `init(const ev_io &)`, which sets the callback of the watcher only. -/
def initHandler (self : StreamLink) (handler : Watcher) : StreamLink :=
  { self with m_sock := handler.fd }

/-- The mask `prepareEvents` computes. -/
def events (self : StreamLink) : EventMask where
  read := self.isReceiving &&
    (self.m_state = .ok && self.m_state = .writeError)
  write := self.isSending && self.m_state = .ok

/-- The link after `prepareEvents` and its result. -/
def prepareEvents (self : StreamLink) : StreamLink × Bool :=
  if self.m_state = .disconnect ∨ self.m_state = .readError then (self, false)
  else
    ({ self with m_handler := self.m_handler.setIoEvents self.events }, true)

def start (self : StreamLink) : StreamLink :=
  match { self with m_reactor := true }.prepareEvents with
  | (self, true) => { self with m_handler := self.m_handler.start }
  | (self, false) => self

def stop (self : StreamLink) : StreamLink :=
  { self with m_handler := self.m_handler.stop }

def destroy (self : StreamLink) : StreamLink :=
  if self.m_sock ≠ 0 then { self with closed := self.closed + 1 } else self

/-! ## What clients do -/

/-- A call of a client on a link.  Before it advances a client peeks, so that
it takes no more than is pending. -/
inductive Action where
  | advance (l : ℕ)
  | write (data : List UInt8)
  | setReceiving (val : Bool)
  | makeDisconnect
  | start

def perform (self : StreamLink) : Action → Option StreamLink
  | .advance l => some (self.advance (min l self.m_in.pending))
  | .write data => self.write data
  | .setReceiving val => some (self.setReceiving val)
  | .makeDisconnect => some self.makeDisconnect
  | .start => some self.start

/-- A client makes the calls of a list, one after the other. -/
def performAll (self : StreamLink) (actions : List Action) :
    Option StreamLink :=
  actions.foldlM perform self

/-- The invocation of a callback that makes these calls. -/
def invoke (self : StreamLink) (callback : Bool) (actions : List Action) :
    Option StreamLink :=
  if callback then self.performAll actions else none

/-! ## Events -/

/-- The state after a receive or send, where a persistent error leads to
`failure`.  A call comes back with `(size_t) -1` exactly if it failed. -/
def afterCall (self : StreamLink) (failure : LinkState) :
    Option Errno → StreamLink
  | some errno =>
      if errno.transient then self
      else { self with m_state := failure, saved_errno := some errno }
  | none => self

/-- The state after a receive that came back with `got`. -/
def afterRecv (self : StreamLink) (errno : Option Errno) (got : ℕ) :
    StreamLink :=
  let self := self.afterCall .readError errno
  if got = 0 then { self with m_state := .disconnect } else self

def RecvResult.errno : RecvResult → Option Errno
  | .failed errno => some errno
  | .received _ => none

def SendResult.errno : SendResult → Option Errno
  | .failed errno => some errno
  | .sent _ => none

/-- The bookkeeping of a receive. -/
def RecvResult.bytes (buffer : Buffer) : RecvResult → List UInt8
  | .received data => Sock.readv buffer data
  | .failed _ => []

/-- The bookkeeping of a send. -/
def SendResult.bytes (buffer : Buffer) : SendResult → List UInt8
  | .sent count => buffer.pendingBytes.take count
  | .failed _ => []

/-- `processRead`, with the calls the read callback makes. -/
def processRead (self : StreamLink) (result : RecvResult)
    (actions : List Action) : Option StreamLink :=
  (Sock.bufferedRecv self.m_in result).bind fun (m_in, got) =>
    let self := { self with
      m_in
      received := self.received ++ RecvResult.bytes self.m_in result }
    let self := self.afterRecv (RecvResult.errno result) got
    if got > 0 ∧ self.m_in.pending ≠ 0 then
      (self.invoke self.onRead actions).map fun self =>
        if self.m_in.pending = 0 then { self with m_in := self.m_in.reset }
        else self
    else some self

/-- `processWrite`, with the calls the write callback makes. -/
def processWrite (self : StreamLink) (result : SendResult)
    (actions : List Action) : Option StreamLink :=
  let (m_out, got) := Sock.bufferedSend self.m_out result
  let self := { self with
    m_out
    accepted := self.accepted ++ SendResult.bytes self.m_out result }
  let self := self.afterCall .writeError (SendResult.errno result)
  if got > 0 ∧ self.m_out.pending = 0 then
    { self with m_out := self.m_out.reset }.invoke self.onWriteCompleted actions
  else some self

/-- The bits `EV_READ` and `EV_WRITE`. -/
def evRead : ℕ := 1

def evWrite : ℕ := 2

/-- An event of the loop: its mask, what the socket does and what the callbacks
do. -/
structure Event where
  revents : ℕ
  recv : RecvResult
  send : SendResult
  readActions : List Action
  writeActions : List Action
  disposeActions : List Action

/-- The reading and writing part of `onEvent`. -/
def process (self : StreamLink) (event : Event) : Option StreamLink :=
  (if event.revents ≠ 0 ∨ evRead ≠ 0 then
    self.processRead event.recv event.readActions
  else some self).bind fun self =>
    if (event.revents ≠ 0 ∨ evWrite ≠ 0) ∧ self.m_state = .ok then
      self.processWrite event.send event.writeActions
    else some self

/-- The last part of `onEvent`: the new mask, or the end of the link. -/
def settle (self : StreamLink) (event : Event) : Option StreamLink :=
  match self.prepareEvents with
  | (self, true) => some self
  | (self, false) =>
      let self := self.stop.destroy
      { self with disposed := self.disposed + 1 }.invoke self.onDispose
        event.disposeActions

def onEvent (self : StreamLink) (event : Event) : Option StreamLink :=
  (self.process event).bind fun self => self.settle event

/-! ## What the parts leave alone -/

variable (link : StreamLink)

theorem afterCall_eq (failure : LinkState) (errno : Option Errno) :
    ∃ m_state saved_errno,
      link.afterCall failure errno = { link with m_state, saved_errno } := by
  cases errno with
  | none => exact ⟨link.m_state, link.saved_errno, rfl⟩
  | some errno =>
      rw [afterCall]
      split
      · exact ⟨link.m_state, link.saved_errno, rfl⟩
      · exact ⟨failure, some errno, rfl⟩

theorem afterRecv_eq (errno : Option Errno) (got : ℕ) :
    ∃ m_state saved_errno,
      link.afterRecv errno got = { link with m_state, saved_errno } := by
  obtain ⟨m_state, saved_errno, hcall⟩ := link.afterCall_eq .readError errno
  rw [afterRecv, hcall]
  split
  · exact ⟨.disconnect, saved_errno, rfl⟩
  · exact ⟨m_state, saved_errno, rfl⟩

end StreamLink

end Sensor
