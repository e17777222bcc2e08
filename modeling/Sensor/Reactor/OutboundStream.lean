import Sensor.Core.TransitionSystem
import Sensor.Reactor.LinkFrame
import Sensor.Reactor.WatchedLink

/-!
# The outbound byte stream of a link

What the socket accepted followed by what is pending in the output buffer is
what the client wrote, whatever `send` accepts and whenever it fails, and the
pointers of the buffer stay in order.
-/

namespace Sensor

open Region

namespace Buffer

/-- What an operation of the output buffer leads to keeps the pointers in
order: the expansion inside an append, the append, a send and the reset. -/
structure StaysValid (buffer : Buffer) : Prop where
  expand : ∀ data : List UInt8, buffer.writable < data.length →
    ∃ larger, buffer.expandTo (buffer.size + data.length) = some larger ∧
      larger.Valid
  append : ∀ data : List UInt8, ∃ next, buffer.append data = some next ∧
    next.Valid
  send : ∀ result, (Sock.bufferedSend buffer result).1.Valid
  reset : buffer.reset.Valid

variable {buffer : Buffer}

theorem Valid.expandTo (hvalid : buffer.Valid) {data : List UInt8}
    (hsmall : buffer.writable < data.length) :
    ∃ larger, buffer.expandTo (buffer.size + data.length) = some larger ∧
      larger.Valid := by
  have hle := hvalid.w_le
  rw [hvalid.writable_eq] at hsmall
  refine ⟨_, if_pos ?_, hvalid.r_le, ?_⟩
  · rw [List.length_replicate]
    simp only
    omega
  · simp only
    omega

theorem Valid.staysValid (hvalid : buffer.Valid) : buffer.StaysValid where
  expand := fun _ hsmall => hvalid.expandTo hsmall
  append := fun data => by
    obtain ⟨next, happend, hnext, -⟩ := hvalid.append data
    exact ⟨next, happend, hnext⟩
  send := StreamLink.bufferedSend_valid hvalid
  reset := buffer.reset_valid

/-- A send moves what the socket accepted out of the pending bytes. -/
theorem Valid.pendingBytes_bufferedSend (hvalid : buffer.Valid)
    (result : SendResult) :
    StreamLink.SendResult.bytes buffer result ++
        (Sock.bufferedSend buffer result).1.pendingBytes =
      buffer.pendingBytes := by
  cases result with
  | failed errno => rfl
  | sent count =>
      have hle := Nat.min_le_right count buffer.pending
      have hsplit := hvalid.pendingBytes_processed hle
      have htake : buffer.pendingBytes.take count =
          read buffer.memory buffer.r (min count buffer.pending) := by
        rw [List.take_eq_take_min, hvalid.length_pendingBytes, hsplit]
        exact List.take_left' length_read
      simp only [StreamLink.SendResult.bytes, Sock.bufferedSend, htake]
      split
      case isTrue => exact hsplit.symm
      case isFalse hnone =>
        have hzero : min count buffer.pending = 0 := by omega
        rw [hzero]
        rfl

end Buffer

namespace StreamLink

/-- The accepted bytes followed by those pending are the bytes written, and the
pointers of the output buffer are in order. -/
structure Sent (link : StreamLink) : Prop where
  stream_eq : link.accepted ++ link.m_out.pendingBytes = link.produced
  valid : link.m_out.Valid

/-- A call of the client, or a write event: what the socket does, and the calls
the write callback makes. -/
inductive Outbound where
  | act (action : Action)
  | write (result : SendResult) (actions : List Action)

/-- The link after a call, or after the writing part of `onEvent`. -/
def outbound (link : StreamLink) : Outbound → Option StreamLink
  | .act action => link.perform action
  | .write result actions =>
      if link.m_state = .ok then link.processWrite result actions
      else some link

variable {link next : StreamLink}

/-! ## The calls of the client -/

/-- A link with the same output buffer and the same bookkeeping. -/
theorem Sent.congr (hlink : link.Sent) (hout : next.m_out = link.m_out)
    (haccepted : next.accepted = link.accepted)
    (hproduced : next.produced = link.produced) : next.Sent where
  stream_eq := by
    rw [hout, haccepted, hproduced]
    exact hlink.stream_eq
  valid := by
    rw [hout]
    exact hlink.valid

theorem Sent.write (hlink : link.Sent) (data : List UInt8) :
    ∃ next, link.write data = some next ∧ next.Sent := by
  obtain ⟨m_out, happend, hvalid, hbytes⟩ := hlink.valid.append data
  refine ⟨_, congrArg _ happend, ?_, hvalid⟩
  rw [hbytes, ← List.append_assoc, hlink.stream_eq]

/-- No call of the client fails, and only `write` touches the stream. -/
theorem Sent.perform (hlink : link.Sent) (action : Action) :
    ∃ next, link.perform action = some next ∧ next.Sent := by
  cases action with
  | advance l => exact ⟨_, rfl, hlink.congr rfl rfl rfl⟩
  | write data => exact hlink.write data
  | setReceiving val =>
      refine ⟨_, rfl, ?_⟩
      rw [setReceiving]
      split
      · exact hlink.congr rfl rfl rfl
      · exact hlink
  | makeDisconnect =>
      refine ⟨_, rfl, ?_⟩
      rw [makeDisconnect]
      split
      · exact hlink.congr rfl rfl rfl
      · exact hlink
  | start =>
      refine ⟨_, rfl, ?_⟩
      rcases link.live_or_ended with hlive | hended
      · rw [start_of_live hlive]
        exact hlink.congr rfl rfl rfl
      · rw [start_of_ended hended]
        exact hlink.congr rfl rfl rfl

theorem Sent.performAll (hlink : link.Sent) (actions : List Action) :
    ∃ next, link.performAll actions = some next ∧ next.Sent := by
  induction actions generalizing link with
  | nil => exact ⟨link, rfl, hlink⟩
  | cons action actions ih =>
      obtain ⟨middle, hfirst, hmiddle⟩ := hlink.perform action
      obtain ⟨next, hrest, hnext⟩ := ih hmiddle
      refine ⟨next, ?_, hnext⟩
      rw [StreamLink.performAll, List.foldlM_cons, hfirst]
      exact hrest

/-! ## Write events -/

/-- The link after a send, before the buffer is reset. -/
theorem Sent.bufferedSend (hlink : link.Sent) (result : SendResult) :
    Sent { link with
      m_out := (Sock.bufferedSend link.m_out result).1
      accepted := link.accepted ++ SendResult.bytes link.m_out result } where
  stream_eq := by
    rw [List.append_assoc, hlink.valid.pendingBytes_bufferedSend,
      hlink.stream_eq]
  valid := bufferedSend_valid hlink.valid result

/-- Resetting an empty buffer. -/
theorem Sent.reset (hlink : link.Sent) (hempty : link.m_out.pending = 0) :
    Sent { link with m_out := link.m_out.reset } where
  stream_eq := by
    have hbytes := hlink.valid.pending_eq_zero_iff.mp hempty
    have hstream := hlink.stream_eq
    rw [hbytes] at hstream
    exact hstream
  valid := link.m_out.reset_valid

/-- A write event whose callback is set is handled and keeps the stream. -/
theorem Sent.processWrite (hlink : link.Sent)
    (hcallback : link.onWriteCompleted = true) (result : SendResult)
    (actions : List Action) :
    ∃ next, link.processWrite result actions = some next ∧ next.Sent := by
  obtain ⟨m_state, saved_errno, hstate⟩ := afterCall_eq
    { link with
      m_out := (Sock.bufferedSend link.m_out result).1
      accepted := link.accepted ++ SendResult.bytes link.m_out result }
    .writeError (SendResult.errno result)
  have hsent : Sent { link with
      m_out := (Sock.bufferedSend link.m_out result).1
      accepted := link.accepted ++ SendResult.bytes link.m_out result
      m_state, saved_errno } :=
    (hlink.bufferedSend result).congr rfl rfl rfl
  simp only [StreamLink.processWrite, hstate]
  split
  case isTrue hdone =>
    rw [invoke, if_pos hcallback]
    exact (hsent.reset hdone.2).performAll actions
  case isFalse => exact ⟨_, rfl, hsent⟩

/-! ## Runs -/

theorem Sent.outbound (hlink : link.Sent)
    (hcallback : link.onWriteCompleted = true) (label : Outbound) :
    ∃ next, link.outbound label = some next ∧ next.Sent ∧
      next.onWriteCompleted = true := by
  cases label with
  | act action =>
      obtain ⟨next, hperform, hnext⟩ := hlink.perform action
      have hkeeps := Keeps.perform hperform
      exact ⟨next, hperform, hnext, hkeeps.onWriteCompleted.trans hcallback⟩
  | write result actions =>
      rw [StreamLink.outbound]
      split
      case isFalse => exact ⟨link, rfl, hlink, hcallback⟩
      case isTrue =>
        obtain ⟨next, hwrite, hnext⟩ :=
          hlink.processWrite hcallback result actions
        have hkeeps := Keeps.processWrite hwrite
        exact ⟨next, hwrite, hnext, hkeeps.onWriteCompleted.trans hcallback⟩

theorem Sent.execute (hlink : link.Sent)
    (hcallback : link.onWriteCompleted = true) (labels : List Outbound) :
    ∃ next, TransitionSystem.execute StreamLink.outbound link labels =
      some next ∧ next.Sent := by
  induction labels generalizing link with
  | nil => exact ⟨link, rfl, hlink⟩
  | cons label labels ih =>
      obtain ⟨middle, hfirst, hmiddle, hset⟩ := hlink.outbound hcallback label
      obtain ⟨next, hrest, hnext⟩ := ih hmiddle hset
      refine ⟨next, ?_, hnext⟩
      rw [TransitionSystem.execute, hfirst, Option.bind_some, hrest]

theorem new_sent (handler : Watcher) (onRead onWriteCompleted onDispose : Bool) :
    Sent { new handler with onRead, onWriteCompleted, onDispose } where
  stream_eq := rfl
  valid := Buffer.new_valid 2048

/-- Every run of calls and write events of a new link with a write callback is
handled, at its end the bytes accepted and those pending are the bytes written,
and every operation of the output buffer keeps its pointers in order. -/
theorem new_outbound_sent (handler : Watcher) (onRead onDispose : Bool)
    (labels : List Outbound) :
    ∃ link, TransitionSystem.execute outbound
        { new handler with onRead, onWriteCompleted := true, onDispose }
        labels = some link ∧
      link.Sent ∧ link.m_out.StaysValid := by
  obtain ⟨link, hexecute, hlink⟩ :=
    (new_sent handler onRead true onDispose).execute rfl labels
  exact ⟨link, hexecute, hlink, hlink.valid.staysValid⟩

/-! ## Whole events -/

theorem Sent.of_perform (hlink : link.Sent) {action : Action}
    (hperform : link.perform action = some next) : next.Sent := by
  obtain ⟨other, heq, hother⟩ := hlink.perform action
  rw [hperform, Option.some.injEq] at heq
  rw [heq]
  exact hother

/-- Receiving leaves the outbound stream alone; the read callback may write. -/
theorem Sent.of_processRead (hlink : link.Sent) {result : RecvResult}
    {actions : List Action}
    (hread : link.processRead result actions = some next) : next.Sent := by
  refine processRead_preserves (fun _ _ _ hbefore => hbefore.of_perform) ?_ ?_
    hread
  · exact fun _ hbefore => hbefore.congr rfl rfl rfl
  · exact fun _ _ _ _ _ => hlink.congr rfl rfl rfl

theorem Sent.of_processWrite (hlink : link.Sent) {result : SendResult}
    {actions : List Action}
    (hwrite : link.processWrite result actions = some next) : next.Sent := by
  refine processWrite_preserves (fun _ _ _ hbefore => hbefore.of_perform) ?_ ?_
    hwrite
  · exact fun _ hbefore => hbefore.reset
  · exact fun _ _ => (hlink.bufferedSend result).congr rfl rfl rfl

theorem Sent.of_onEvent (hlink : link.Sent) {event : Event}
    (hevent : link.onEvent event = some next) : next.Sent := by
  refine onEvent_preserves (fun _ _ _ hbefore => hbefore.of_perform)
    (fun _ _ hbefore => hbefore.of_processRead)
    (fun _ _ hbefore => hbefore.of_processWrite) ?_ hlink hevent
  exact fun _ _ _ _ hbefore => hbefore.congr rfl rfl rfl

/-- The outbound stream is intact in every state of a link among its calls and
events, whatever it receives and whichever callbacks are set. -/
theorem sent_of_reachable (hreach : WatchedLink.system.Reachable link) :
    link.Sent := by
  apply hreach.invariant
  · rintro start ⟨handler, onRead, onWriteCompleted, onDispose, opening, rfl⟩
    have hnew := new_sent handler onRead onWriteCompleted onDispose
    cases opening with
    | sock sock => exact hnew.congr rfl rfl rfl
    | handler other => exact hnew.congr rfl rfl rfl
  · intro before label after hbefore hstep
    cases label with
    | act action =>
        obtain ⟨other, hperform, hother⟩ := hbefore.perform action
        have hsame : WatchedLink.step before (.act action) = none ∨
            WatchedLink.step before (.act action) = some other := by
          rw [← hperform]
          cases action with
          | start => exact ite_eq_or_eq _ _ _
          | _ => exact .inr rfl
        have hafter : WatchedLink.step before (.act action) = some after := hstep
        rw [hafter] at hsame
        rcases hsame with hnone | hsome
        · cases hnone
        · rw [Option.some.inj hsome]
          exact hother
    | event event =>
        have hevent : WatchedLink.step before (.event event) = some after :=
          hstep
        rw [WatchedLink.step] at hevent
        split at hevent
        · exact hbefore.of_onEvent hevent
        · cases hevent

end StreamLink

end Sensor
