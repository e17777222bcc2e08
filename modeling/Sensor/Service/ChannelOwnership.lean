import Sensor.Core.TransitionSystem
import Sensor.Reactor.InboundStream
import Sensor.Reactor.LinkFrame
import Sensor.Service.SensorService

/-!
# Who owns the sockets of the service

The acceptor hands every socket to a new link, also the `-1` of a failed
`accept`, and drops a socket whose address is in `activeChannels` already.  No
link is ever removed from there, and none has a dispose callback, so the end of
a connection is an invocation of a null function.
-/

namespace Sensor.SensorService

open StreamLink

variable {Address : Type*}

/-! ## What the service promises -/

/-- A started link that is not disposed of. -/
def Works (link : StreamLink) : Prop :=
  link.m_reactor = true ∧ link.m_handler.active = true ∧ link.disposed = 0

/-- Every open descriptor is owned by exactly one link, which works. -/
def Sound (state : State Address) : Prop :=
  ∀ fd, state.isOpen fd = true → ∃! address, ∃ link,
    state.activeChannels address = some link ∧ link.m_sock = fd ∧ Works link

/-- What an event may do beyond that: a failed `accept` creates no channel, and
a connection from an address whose link was disposed of gets a new link. -/
def Promise (state next : State Address) : Label Address → Prop
  | .accept fd address _ =>
      ∀ earlier, state.activeChannels address = some earlier →
        earlier.disposed ≠ 0 → ∃ link,
          next.activeChannels address = some link ∧ link.m_sock = fd ∧
            Works link
  | .acceptFailed _ _ => ∀ address,
      (next.activeChannels address).isSome = (state.activeChannels address).isSome
  | .link _ _ => True

variable [DecidableEq Address]

/-- Every state of the run is sound, and every event that can happen is handled
as promised. -/
def Serves (state : State Address) : List (Label Address) → Prop
  | [] => Sound state
  | label :: labels =>
      Sound state ∧ (Enabled state label → ∃ next,
        step state label = some next ∧ Promise state next label ∧
          Serves next labels)

/-! ## When it keeps the promise -/

/-- An event of a link that ends neither the link nor the process: the socket
has bytes, no more than fit, or a transient error, and the send of the empty
output does not fail. -/
def Harmless (link : StreamLink) (event : Event) : Prop :=
  (match event.recv with
    | .received data => data ≠ [] ∧ data.length ≤ link.m_in.writable
    | .failed errno => errno.transient = true) ∧
  ∃ count, event.send = .sent count

/-- The events the service handles rightly: a connection from an address that
is not in the map, a failed `accept` whose uninitialised address happens to be
there, and a harmless event of a link. -/
def Allowed (state : State Address) : Label Address → Prop
  | .accept _ address _ => state.activeChannels address = none
  | .acceptFailed garbage _ => state.activeChannels garbage ≠ none
  | .link address event => ∀ link, state.activeChannels address = some link →
      Harmless link event

/-- Every event of the run that can happen is allowed. -/
def Meets (state : State Address) : List (Label Address) → Prop
  | [] => True
  | label :: labels => Enabled state label → Allowed state label ∧
      ∀ next, step state label = some next → Meets next labels

/-! ## The links of the service -/

/-- A link of the service between two events. -/
structure Serving (link : StreamLink) : Prop where
  works : Works link
  state : link.m_state = .ok
  onRead : link.onRead = true
  onWriteCompleted : link.onWriteCompleted = false
  onDispose : link.onDispose = false
  in_valid : link.m_in.Valid
  out_valid : link.m_out.Valid
  idle : link.m_out.pending = 0
  closed : link.closed = 0

variable {link next : StreamLink}

/-- The link a new connection gets. -/
theorem serving_start (handler : Watcher) (sock : ℤ) :
    Serving ((((StreamLink.new handler).setReadCallback.setReceiving
      true).init sock).start) := by
  rw [start_of_live (.inl rfl)]
  exact ⟨⟨rfl, rfl, rfl⟩, rfl, rfl, rfl, rfl, Buffer.new_valid 2048,
    Buffer.new_valid 2048, rfl, rfl⟩

theorem sock_start (handler : Watcher) (sock : ℤ) :
    ((((StreamLink.new handler).setReadCallback.setReceiving
      true).init sock).start).m_sock = sock := by
  rw [start_of_live (.inl rfl)]
  rfl

/-- A send finds nothing to do. -/
theorem Serving.process_write (hserving : Serving link) (count : ℕ)
    (actions : List Action) :
    ∃ sent, link.processWrite (.sent count) actions = some sent ∧
      Serving sent ∧ sent.m_sock = link.m_sock := by
  refine ⟨{ link with
    accepted := link.accepted ++ link.m_out.pendingBytes.take count },
    ?_, { hserving with works := hserving.works }, rfl⟩
  simp [StreamLink.processWrite, Sock.bufferedSend, hserving.idle, afterCall,
    SendResult.errno, SendResult.bytes]

/-- The read callback of the service changes nothing, so bytes stay pending. -/
theorem invoke_onDataRead (hread : link.onRead = true)
    (hpending : link.m_in.pending ≠ 0) :
    (link.invoke link.onRead onDataRead).map
      (fun after => if after.m_in.pending = 0 then
        { after with m_in := after.m_in.reset } else after) = some link := by
  rw [StreamLink.invoke, if_pos hread]
  exact congrArg some (if_neg hpending)

/-- A receive of bytes that fit leaves them pending. -/
theorem process_read (hin : link.m_in.Valid) (hread : link.onRead = true)
    {data : List UInt8} (hdata : data ≠ [])
    (hfits : data.length ≤ link.m_in.writable) :
    ∃ m_in, link.processRead (.received data) onDataRead = some
        { link with m_in, received := link.received ++ data } ∧
      m_in.Valid := by
  obtain ⟨m_in, hrecv, hvalid, hbytes⟩ :=
    recvBytes_of_le hin hfits
  have hpositive := List.length_pos_iff.mpr hdata
  have hpending := hvalid.pending_ne_zero hbytes hdata
  refine ⟨m_in, ?_, hvalid⟩
  rw [processRead, Sock.bufferedRecv, readv_of_le hfits, hrecv,
    Option.map_some, Option.bind_some]
  simp only [RecvResult.errno, RecvResult.bytes, readv_of_le hfits, afterRecv,
    afterCall, if_neg (Nat.ne_of_gt hpositive)]
  rw [if_pos ⟨hpositive, hpending⟩]
  exact invoke_onDataRead hread hpending

/-- The end of the stream leads to `DISCONNECT`. -/
theorem process_read_end (hvalid : link.m_in.Valid) :
    ∃ after, link.processRead (.received []) onDataRead = some after ∧
      after.m_state = .disconnect ∧ after.onDispose = link.onDispose := by
  have hempty : Sock.readv link.m_in [] = [] := List.take_nil
  have hnone : ([] : List UInt8).length ≤ link.m_in.writable := Nat.zero_le _
  obtain ⟨m_in, hrecv, -, -⟩ := recvBytes_of_le hvalid hnone
  refine ⟨{ link with m_in, m_state := .disconnect }, ?_, rfl, rfl⟩
  rw [processRead, Sock.bufferedRecv, hempty, hrecv, Option.map_some,
    Option.bind_some]
  simp [RecvResult.errno, RecvResult.bytes, hempty, afterRecv, afterCall]

/-- A failed receive leaves the buffer as it is, whether or not the callback
sees the bytes that are pending. -/
theorem process_read_failed (hread : link.onRead = true) (errno : Errno) :
    link.processRead (.failed errno) onDataRead =
      some (link.afterCall .readError (some errno)) := by
  obtain ⟨m_state, saved_errno, hstate⟩ :=
    link.afterCall_eq .readError (some errno)
  have hnonzero : failedSize ≠ 0 := by decide
  rw [processRead, Sock.bufferedRecv, Option.bind_some]
  simp only [RecvResult.errno, RecvResult.bytes, List.append_nil, afterRecv,
    hstate, if_neg hnonzero]
  split
  case isTrue hpending => exact invoke_onDataRead hread hpending.2
  case isFalse => rfl

/-! ## One event of a link -/

/-- A receive of a harmless event leaves the link serving. -/
theorem Serving.processRead (hserving : Serving link) {recv : RecvResult}
    (hrecv : match recv with
      | .received data => data ≠ [] ∧ data.length ≤ link.m_in.writable
      | .failed errno => errno.transient = true) :
    ∃ after, link.processRead recv onDataRead = some after ∧ Serving after ∧
      after.m_sock = link.m_sock := by
  cases recv with
  | received data =>
      obtain ⟨m_in, hprocess, hvalid⟩ :=
        process_read hserving.in_valid hserving.onRead hrecv.1 hrecv.2
      exact ⟨_, hprocess, { hserving with in_valid := hvalid }, rfl⟩
  | failed errno =>
      refine ⟨link, ?_, hserving, rfl⟩
      rw [process_read_failed hserving.onRead, afterCall, if_pos hrecv]

/-- A harmless event leaves the link serving, with its socket. -/
theorem Serving.onEvent (hserving : Serving link) {event : Event}
    (hharmless : Harmless link event) :
    ∃ next, link.onEvent { event with readActions := onDataRead } = some next ∧
      Serving next ∧ next.m_sock = link.m_sock := by
  obtain ⟨hrecv, count, hsend⟩ := hharmless
  obtain ⟨after, hread, hafter, hsock⟩ := hserving.processRead hrecv
  obtain ⟨sent, hwrite, hsent, hsock'⟩ :=
    hafter.process_write count event.writeActions
  rw [StreamLink.onEvent, process_eq]
  simp only [hread, hsend, Option.bind_some, if_pos hafter.state, hwrite]
  rw [settle_of_live (.inl hsent.state)]
  exact ⟨_, rfl, { hsent with works := hsent.works }, hsock'.trans hsock⟩

/-- The channels between two events: they serve, and the open descriptors are
their sockets, each of one channel. -/
structure Invariant (state : State Address) : Prop where
  serving : ∀ address link, state.activeChannels address = some link →
    Serving link
  isOpen : ∀ address link, state.activeChannels address = some link →
    state.isOpen link.m_sock = true
  unique : ∀ left right leftLink rightLink,
    state.activeChannels left = some leftLink →
      state.activeChannels right = some rightLink →
        leftLink.m_sock = rightLink.m_sock → left = right
  owner : ∀ fd, state.isOpen fd = true → ∃ address link,
    state.activeChannels address = some link ∧ link.m_sock = fd

variable {state after : State Address}

omit [DecidableEq Address] in
theorem Invariant.initial : Invariant (State.initial : State Address) where
  serving := by simp [State.initial]
  isOpen := by simp [State.initial]
  unique := by simp [State.initial]
  owner := by simp [State.initial]

omit [DecidableEq Address] in
theorem Invariant.sound (hinv : Invariant state) : Sound state := by
  intro fd hopen
  obtain ⟨address, link, hlink, hsock⟩ := hinv.owner fd hopen
  refine ⟨address, ⟨link, hlink, hsock, (hinv.serving _ _ hlink).works⟩, ?_⟩
  rintro other ⟨otherLink, hother, hotherSock, -⟩
  exact hinv.unique _ _ _ _ hother hlink (hotherSock.trans hsock.symm)

theorem onAcceptorEvent_of_none {sock : ℤ} {address : Address}
    {handler : Watcher} (hnone : state.activeChannels address = none) :
    onAcceptorEvent state sock address handler =
      { state with
        activeChannels := Function.update state.activeChannels address
          (some ((((StreamLink.new handler).setReadCallback.setReceiving
            true).init sock).start)) } := by
  rw [onAcceptorEvent, onConnectionAccepted, hnone]
  simp [State.modify]

/-- A connection from a new address. -/
theorem Invariant.accept (hinv : Invariant state) {fd : ℤ} {address : Address}
    {handler : Watcher} (hclosed : state.isOpen fd = false)
    (hnone : state.activeChannels address = none) :
    Invariant (onAcceptorEvent
      { state with isOpen := Function.update state.isOpen fd true }
      fd address handler) := by
  have hserving := serving_start handler fd
  have hsock := sock_start handler fd
  have hfree : ∀ other link, state.activeChannels other = some link →
      link.m_sock ≠ fd := by
    rintro other link hlink rfl
    have hopen := hinv.isOpen _ _ hlink
    rw [hclosed] at hopen
    cases hopen
  have hstate : onAcceptorEvent
      { state with isOpen := Function.update state.isOpen fd true }
      fd address handler =
        { activeChannels := Function.update state.activeChannels address
            (some ((((StreamLink.new handler).setReadCallback.setReceiving
              true).init fd).start))
          isOpen := Function.update state.isOpen fd true } :=
    onAcceptorEvent_of_none hnone
  rw [hstate]
  generalize (((StreamLink.new handler).setReadCallback.setReceiving
    true).init fd).start = link at hserving hsock
  refine ⟨?_, ?_, ?_, ?_⟩
  · intro other otherLink hother
    rcases update_eq_some_iff.mp hother with ⟨-, ⟨⟩⟩ | ⟨-, hold⟩
    · exact hserving
    · exact hinv.serving _ _ hold
  · intro other otherLink hother
    simp only
    rcases update_eq_some_iff.mp hother with ⟨-, ⟨⟩⟩ | ⟨-, hold⟩
    · rw [hsock]
      exact Function.update_self _ _ _
    · rw [Function.update_of_ne (hfree _ _ hold)]
      exact hinv.isOpen _ _ hold
  · apply update_unique hinv.unique
    rintro _ other otherLink ⟨⟩ - hold heq
    exact hfree _ _ hold (heq.trans hsock)
  · intro other hopen
    by_cases heq : other = fd
    · exact ⟨address, link, Function.update_self _ _ _, hsock.trans heq.symm⟩
    · simp only at hopen ⊢
      rw [Function.update_of_ne heq] at hopen
      obtain ⟨owner, ownerLink, howner, hownerSock⟩ := hinv.owner other hopen
      refine ⟨owner, ownerLink, ?_, hownerSock⟩
      have hne : owner ≠ address := by
        rintro rfl
        rw [hnone] at howner
        cases howner
      rw [Function.update_of_ne hne]
      exact howner

/-- An event of a link that leaves it serving, with its socket. -/
theorem Invariant.replace (hinv : Invariant state) {address : Address}
    (hlink : state.activeChannels address = some link) (hserving : Serving next)
    (hsock : next.m_sock = link.m_sock) :
    Invariant { state with
      activeChannels :=
        Function.update state.activeChannels address (some next) } := by
  refine ⟨?_, ?_, ?_, ?_⟩
  · intro other otherLink hother
    rcases update_eq_some_iff.mp hother with ⟨-, ⟨⟩⟩ | ⟨-, hold⟩
    · exact hserving
    · exact hinv.serving _ _ hold
  · intro other otherLink hother
    rcases update_eq_some_iff.mp hother with ⟨-, ⟨⟩⟩ | ⟨-, hold⟩
    · rw [hsock]
      exact hinv.isOpen _ _ hlink
    · exact hinv.isOpen _ _ hold
  · apply update_unique hinv.unique
    rintro _ other otherLink ⟨⟩ hne hold heq
    exact hne (hinv.unique _ _ _ _ hold hlink (heq.trans hsock))
  · intro fd hopen
    obtain ⟨owner, ownerLink, howner, hownerSock⟩ := hinv.owner fd hopen
    by_cases heq : owner = address
    · refine ⟨address, next, Function.update_self _ _ _, ?_⟩
      rw [heq, hlink] at howner
      obtain rfl := Option.some.inj howner
      exact hsock.trans hownerSock
    · refine ⟨owner, ownerLink, ?_, hownerSock⟩
      simp only
      rw [Function.update_of_ne heq]
      exact howner

theorem Serves.sound {labels : List (Label Address)}
    (hserves : Serves state labels) : Sound state := by
  cases labels with
  | nil => exact hserves
  | cons label labels => exact hserves.1

end Sensor.SensorService
