import Sensor.Reactor.LinkLog
import Sensor.Reactor.WatchedLink

/-!
# What a stream link reports to its callbacks

`onEvent` tests its mask with `||`, so it receives and sends at every event; and
the result of a failed call, `(size_t) -1`, is greater than zero, so a failure
counts as bytes received where some are pending and as a completed write where
none are.  Everything else the link reports has happened.
-/

namespace Sensor.LinkReports

open StreamLink Logged WatchedLink

/-- A link among any calls and events. -/
def step (link : StreamLink) : Label → Option StreamLink
  | .act action => link.perform action
  | .event event => link.onEvent event

def system : TransitionSystem StreamLink Label :=
  .ofStep IsInitial step

/-! ## What the link promises -/

/-- The computation leaves the link as it is and invokes no callback. -/
def Unchanged (link : StreamLink) (computation : Logged Entry StreamLink) :
    Prop :=
  computation.value = some link ∧
    ∀ callback isSet, .callback callback isSet ∉ computation.log

/-- What a link does and reports in an event is what its mask and the socket
say.  A receive that writes past its buffer counts as failing: what the event
does behind it is undefined. -/
structure Truthful (link : StreamLink) (event : Event) : Prop where
  defined : (Sock.bufferedRecv link.m_in event.recv).isSome = true
  recv : ∀ got, .recv got ∈ (Traced.onEvent link event).log →
    event.revents &&& evRead ≠ 0
  send : ∀ m_state before got after,
    .send m_state before got after ∈ (Traced.onEvent link event).log →
      event.revents &&& evWrite ≠ 0 ∧ m_state = .ok
  onRead : ∀ isSet,
    .callback .onRead isSet ∈ (Traced.onEvent link event).log →
      ∃ got, .recv (some got) ∈ (Traced.onEvent link event).log ∧ 0 < got
  onWriteCompleted : ∀ isSet,
    .callback .onWriteCompleted isSet ∈ (Traced.onEvent link event).log →
      ∃ m_state before got, before ≠ 0 ∧
        .send m_state before (some got) 0 ∈ (Traced.onEvent link event).log
  recv_transient : ∀ errno, event.recv = .failed errno →
    errno.transient = true →
      Unchanged link (Traced.processRead link event.recv event.readActions)
  send_transient : ∀ errno, event.send = .failed errno →
    errno.transient = true → ∀ middle,
      link.processRead event.recv event.readActions = some middle →
        middle.m_state = .ok → Unchanged middle
          (Traced.processWrite middle event.send event.writeActions)

/-! ## When it keeps the promise -/

def RecvFails (event : Event) : Prop :=
  ∃ errno, event.recv = .failed errno

def SendFails (event : Event) : Prop :=
  ∃ errno, event.send = .failed errno

/-- The receive leaves the link in the state `OK`, and the event goes on to
send: it brings bytes that fit and a read callback that does not disconnect, or
fails for now. -/
def Sends (link : StreamLink) (event : Event) : Prop :=
  link.m_state = .ok ∧
    match event.recv with
    | .received data => data ≠ [] ∧ data.length ≤ link.m_in.writable ∧
        link.onRead = true ∧ .makeDisconnect ∉ event.readActions
    | .failed errno => errno.transient = true

/-- There is something to send, or the read callback writes something. -/
def HasOutput (link : StreamLink) (event : Event) : Prop :=
  link.m_out.pending ≠ 0 ∨
    match event.recv with
    | .received _ => ∃ data, .write data ∈ event.readActions ∧ data ≠ []
    | .failed _ => False

/-- The bytes received fit into the rest of the buffer. -/
def Fits (link : StreamLink) (event : Event) : Prop :=
  match event.recv with
  | .received data => data.length ≤ link.m_in.writable
  | .failed _ => True

/-- The bytes received fit, the mask reports what the event does, no receive
fails while bytes are pending, and no send fails without any. -/
structure Meets (link : StreamLink) (event : Event) : Prop where
  fits : Fits link event
  read : event.revents &&& evRead ≠ 0
  recv : RecvFails event → link.m_in.pending = 0
  write : Sends link event → event.revents &&& evWrite ≠ 0
  send : Sends link event → SendFails event → HasOutput link event

/-! ## The buffers -/

/-- The pointers of both buffers are in order. -/
structure Buffered (link : StreamLink) : Prop where
  in_valid : link.m_in.Valid
  out_valid : link.m_out.Valid

variable {link next : StreamLink}

theorem Buffered.perform (hbuffered : Buffered link) {action : Action}
    (hperform : link.perform action = some next) : Buffered next := by
  refine ⟨?_, (Keeps.perform hperform).out_valid hbuffered.out_valid⟩
  cases action with
  | advance l =>
      cases hperform
      exact hbuffered.in_valid.processed (Nat.min_le_right _ _)
  | write data =>
      obtain ⟨m_out, -, rfl⟩ := Option.map_eq_some_iff.mp hperform
      exact hbuffered.in_valid
  | setReceiving val =>
      cases hperform
      rw [setReceiving]
      split <;> exact hbuffered.in_valid
  | makeDisconnect =>
      cases hperform
      rw [makeDisconnect]
      split <;> exact hbuffered.in_valid
  | start =>
      cases hperform
      rcases link.live_or_ended with hlive | hended
      · rw [start_of_live hlive]
        exact hbuffered.in_valid
      · rw [start_of_ended hended]
        exact hbuffered.in_valid

/-- A receive is defined exactly if its bytes fit. -/
theorem bufferedRecv_isSome_iff (hvalid : link.m_in.Valid) (event : Event) :
    (Sock.bufferedRecv link.m_in event.recv).isSome = true ↔
      Fits link event := by
  rw [Fits]
  cases event.recv with
  | failed errno => exact iff_of_true rfl trivial
  | received data =>
      rcases Nat.lt_or_ge link.m_in.writable data.length with hspill | hfits
      · rw [bufferedRecv_of_lt hvalid hspill]
        exact iff_of_false Bool.false_ne_true (Nat.not_le.mpr hspill)
      · obtain ⟨after, hrecv, -, -⟩ := recvBytes_of_le hvalid hfits
        rw [Sock.bufferedRecv, readv_of_le hfits, hrecv]
        exact iff_of_true rfl hfits

/-- A receive that is defined leaves the pointers in order. -/
theorem bufferedRecv_valid {buffer after : Buffer} (hvalid : buffer.Valid)
    {result : RecvResult} {got : ℕ}
    (hrecv : Sock.bufferedRecv buffer result = some (after, got)) :
    after.Valid := by
  cases result with
  | failed errno =>
      cases hrecv
      exact hvalid
  | received data =>
      obtain ⟨stored, hstored, heq⟩ := Option.map_eq_some_iff.mp hrecv
      cases heq
      rcases Nat.lt_or_ge buffer.writable (Sock.readv buffer data).length with
        hspill | hfits
      · rw [recvBytes_of_lt hvalid hspill (List.length_take_le _ _)] at hstored
        cases hstored
      · obtain ⟨other, hother, hafter, -⟩ := recvBytes_of_le hvalid hfits
        rw [hstored, Option.some.injEq] at hother
        rw [hother]
        exact hafter

theorem Buffered.processRead (hbuffered : Buffered link) {result : RecvResult}
    {actions : List Action}
    (hread : link.processRead result actions = some next) : Buffered next := by
  refine processRead_preserves (fun _ _ _ hbefore => hbefore.perform) ?_ ?_
    hread
  · exact fun before hbefore => ⟨before.m_in.reset_valid, hbefore.out_valid⟩
  · intro m_in got m_state saved_errno hrecv
    exact ⟨bufferedRecv_valid hbuffered.in_valid hrecv, hbuffered.out_valid⟩

theorem Buffered.processWrite (hbuffered : Buffered link) {result : SendResult}
    {actions : List Action}
    (hwrite : link.processWrite result actions = some next) :
    Buffered next := by
  refine processWrite_preserves (fun _ _ _ hbefore => hbefore.perform) ?_ ?_
    hwrite
  · exact fun before hbefore _ => ⟨hbefore.in_valid, before.m_out.reset_valid⟩
  · intro m_state saved_errno
    exact ⟨hbuffered.in_valid, bufferedSend_valid hbuffered.out_valid result⟩

theorem Buffered.onEvent (hbuffered : Buffered link) {event : Event}
    (hevent : link.onEvent event = some next) : Buffered next := by
  refine onEvent_preserves (fun _ _ _ hbefore => hbefore.perform)
    (fun _ _ hbefore => hbefore.processRead)
    (fun _ _ hbefore => hbefore.processWrite) ?_ hbuffered hevent
  exact fun _ _ _ _ hbefore => ⟨hbefore.in_valid, hbefore.out_valid⟩

theorem reachable_buffered (hreach : system.Reachable link) : Buffered link := by
  apply hreach.invariant
  · rintro start ⟨handler, onRead, onWriteCompleted, onDispose, opening, rfl⟩
    cases opening <;> exact ⟨Buffer.new_valid 2048, Buffer.new_valid 2048⟩
  · intro before label after hbuffered hstep
    cases label with
    | act action => exact hbuffered.perform hstep
    | event event => exact hbuffered.onEvent hstep

/-! ## The log of a receive -/

/-- An entry that shows a state and nothing else. -/
def IsState (entry : Entry) : Prop :=
  ∃ m_state, entry = .state m_state

theorem log_performAll (link : StreamLink) (actions : List Action) :
    (Traced.performAll link actions).Safe IsState fun _ => True := by
  refine Safe.run (fun link action _ => ?_) trivial actions
  rw [Traced.perform, safe_bind, safe_ofOption]
  intro next _
  rw [Traced.showing, safe_tell]
  exact ⟨⟨_, rfl⟩, fun _ _ => trivial⟩

/-- The invocation of a callback is logged first. -/
theorem callback_mem_invoke (link : StreamLink) (callback : Callback)
    (isSet : Bool) (actions : List Action) :
    .callback callback isSet ∈ (Traced.invoke link callback isSet actions).log
    := by
  rw [Traced.invoke]
  cases isSet with
  | false => exact List.mem_singleton_self _
  | true => exact List.mem_cons_self

theorem log_invoke (link : StreamLink) (callback : Callback) (isSet : Bool)
    (actions : List Action) :
    (Traced.invoke link callback isSet actions).Safe
      (fun entry => entry = .callback callback isSet ∨ IsState entry)
      fun _ => True := by
  rw [Traced.invoke, safe_bind, safe_tell]
  refine ⟨.inl rfl, fun after _ => ?_⟩
  have hstates := log_performAll after actions
  exact ⟨fun entry hentry => .inr (hstates.1 entry hentry), hstates.2⟩

/-- The receive leads to the read callback. -/
def Delivers (link : StreamLink) : RecvResult → Prop
  | .received data => data ≠ [] ∧ data.length ≤ link.m_in.writable
  | .failed _ => link.m_in.pending ≠ 0

theorem log_processRead (link : StreamLink) (result : RecvResult)
    (actions : List Action) :
    (Traced.processRead link result actions).Safe
      (fun entry => entry = .recv (RecvResult.got link.m_in result) ∨
        IsState entry ∨ entry = .callback .onRead link.onRead)
      fun _ => True := by
  rw [Traced.processRead, safe_bind, safe_tell]
  refine ⟨.inl rfl, ?_⟩
  rintro ⟨m_in, got⟩ -
  obtain ⟨m_state, saved_errno, hstate⟩ := afterRecv_eq
    { link with
      m_in
      received := link.received ++ RecvResult.bytes link.m_in result }
    (RecvResult.errno result) got
  simp only [hstate]
  rw [safe_bind, Traced.showing, safe_tell]
  refine ⟨.inr (.inl ⟨_, rfl⟩), ?_⟩
  rintro after ⟨⟩
  split
  · rw [safe_map]
    have hinvoke := log_invoke { link with
      m_in, m_state, saved_errno
      received := link.received ++ RecvResult.bytes link.m_in result }
      .onRead link.onRead actions
    refine ⟨fun entry hentry => ?_, hinvoke.2⟩
    rcases hinvoke.1 entry hentry with hcallback | hstate
    · exact .inr (.inr hcallback)
    · exact .inr (.inl hstate)
  · exact safe_pure.mpr trivial

theorem recv_mem_processRead (link : StreamLink) (result : RecvResult)
    (actions : List Action) :
    .recv (RecvResult.got link.m_in result) ∈
      (Traced.processRead link result actions).log := by
  rw [Traced.processRead]
  cases hrecv : Sock.bufferedRecv link.m_in result with
  | none =>
      rw [log_bind_of_none (by rfl)]
      exact List.mem_singleton_self _
  | some received =>
      rw [log_bind_of_some (by rfl)]
      exact List.mem_cons_self

theorem log_showing_bind {rest : StreamLink → Logged Entry StreamLink} :
    ((Traced.showing link).bind rest).log =
      .state link.m_state :: (rest link).log := rfl

/-- A receive that is defined leads to the callback if it came back with
anything but zero and bytes are pending. -/
theorem callback_mem_of_recv {result : RecvResult} {actions : List Action}
    {m_in : Buffer} {got : ℕ}
    (hrecv : Sock.bufferedRecv link.m_in result = some (m_in, got)) :
    (∃ isSet, .callback .onRead isSet ∈
        (Traced.processRead link result actions).log) ↔
      got > 0 ∧ m_in.pending ≠ 0 := by
  obtain ⟨m_state, saved_errno, hstate⟩ := afterRecv_eq
    { link with
      m_in
      received := link.received ++ RecvResult.bytes link.m_in result }
    (RecvResult.errno result) got
  rw [Traced.processRead, log_bind_of_some hrecv]
  simp only [hstate, log_showing_bind]
  by_cases hcalled : got > 0 ∧ m_in.pending ≠ 0
  · rw [if_pos hcalled]
    have hmem := callback_mem_invoke { link with
      m_in, m_state, saved_errno
      received := link.received ++ RecvResult.bytes link.m_in result }
      .onRead link.onRead actions
    exact iff_of_true ⟨link.onRead, List.mem_append_right _
      (List.mem_cons_of_mem _ hmem)⟩ hcalled
  · rw [if_neg hcalled]
    simp [Logged.tell, Logged.pure, hcalled]

theorem callback_mem_processRead_iff (hvalid : link.m_in.Valid)
    {result : RecvResult} {actions : List Action} :
    (∃ isSet, .callback .onRead isSet ∈
        (Traced.processRead link result actions).log) ↔
      Delivers link result := by
  cases result with
  | failed errno =>
      have hfailed : failedSize > 0 := by decide
      rw [callback_mem_of_recv (by rfl), Delivers, and_iff_right hfailed]
  | received data =>
      rw [Delivers]
      rcases Nat.lt_or_ge link.m_in.writable data.length with hspill | hfits
      · rw [Traced.processRead, log_bind_of_none
          (show _ = none from bufferedRecv_of_lt hvalid hspill)]
        simp [Logged.tell, Nat.not_le.mpr hspill]
      · obtain ⟨after, hrecv, hafter, hbytes⟩ := recvBytes_of_le hvalid hfits
        have hgot : Sock.bufferedRecv link.m_in (.received data) =
            some (after, data.length) := by
          rw [Sock.bufferedRecv, readv_of_le hfits, hrecv, Option.map_some]
        rw [callback_mem_of_recv hgot, gt_iff_lt, List.length_pos_iff,
          and_iff_left hfits]
        exact and_iff_left_of_imp (hafter.pending_ne_zero hbytes)

/-- A read callback reports bytes received exactly if the receive did not fail
with bytes pending. -/
theorem onRead_truthful_iff (hvalid : link.m_in.Valid) {result : RecvResult}
    {actions : List Action} :
    (∀ isSet, .callback .onRead isSet ∈
        (Traced.processRead link result actions).log →
      ∃ got, RecvResult.got link.m_in result = some got ∧ 0 < got) ↔
      ((∃ errno, result = .failed errno) → link.m_in.pending = 0) := by
  have hmem : (∀ isSet, .callback .onRead isSet ∈
        (Traced.processRead link result actions).log →
      ∃ got, RecvResult.got link.m_in result = some got ∧ 0 < got) ↔
      (Delivers link result →
        ∃ got, RecvResult.got link.m_in result = some got ∧ 0 < got) := by
    rw [← callback_mem_processRead_iff hvalid, exists_imp]
  rw [hmem]
  cases result with
  | failed errno => simp [Delivers, RecvResult.got]
  | received data =>
      refine iff_of_true ?_ ?_
      · rintro ⟨hne, hfits⟩
        refine ⟨data.length, ?_, List.length_pos_iff.mpr hne⟩
        rw [RecvResult.got, readv_of_le hfits]
      · rintro ⟨errno, ⟨⟩⟩

/-! ## The log of a send -/

theorem log_processWrite (link : StreamLink) (result : SendResult)
    (actions : List Action) :
    (Traced.processWrite link result actions).Safe
      (fun entry => entry = .send link.m_state link.m_out.pending
          (SendResult.got link.m_out result)
          (Sock.bufferedSend link.m_out result).1.pending ∨
        IsState entry ∨
          entry = .callback .onWriteCompleted link.onWriteCompleted)
      fun _ => True := by
  rw [Traced.processWrite]
  obtain ⟨m_out, got⟩ := Sock.bufferedSend link.m_out result
  obtain ⟨m_state, saved_errno, hstate⟩ := afterCall_eq
    { link with
      m_out
      accepted := link.accepted ++ SendResult.bytes link.m_out result }
    .writeError (SendResult.errno result)
  rw [safe_bind, safe_tell]
  refine ⟨.inl rfl, ?_⟩
  rintro sent ⟨⟩
  rw [hstate, safe_bind, Traced.showing, safe_tell]
  refine ⟨.inr (.inl ⟨_, rfl⟩), ?_⟩
  rintro after ⟨⟩
  split
  · have hinvoke := log_invoke { link with
      m_out := m_out.reset, m_state, saved_errno
      accepted := link.accepted ++ SendResult.bytes link.m_out result }
      .onWriteCompleted link.onWriteCompleted actions
    refine ⟨fun entry hentry => ?_, hinvoke.2⟩
    rcases hinvoke.1 entry hentry with hcallback | hstate
    · exact .inr (.inr hcallback)
    · exact .inr (.inl hstate)
  · exact safe_pure.mpr trivial

theorem send_mem_processWrite (link : StreamLink) (result : SendResult)
    (actions : List Action) :
    .send link.m_state link.m_out.pending (SendResult.got link.m_out result)
        (Sock.bufferedSend link.m_out result).1.pending ∈
      (Traced.processWrite link result actions).log := by
  rw [Traced.processWrite]
  obtain ⟨m_out, got⟩ := Sock.bufferedSend link.m_out result
  exact List.mem_cons_self

/-- The send leads to the write callback: it drained the buffer, or it failed
with nothing to send. -/
def Completes (link : StreamLink) (result : SendResult) : Prop :=
  (Sock.bufferedSend link.m_out result).2 > 0 ∧
    (Sock.bufferedSend link.m_out result).1.pending = 0

theorem callback_mem_processWrite_iff {result : SendResult}
    {actions : List Action} :
    (∃ isSet, .callback .onWriteCompleted isSet ∈
        (Traced.processWrite link result actions).log) ↔
      Completes link result := by
  obtain ⟨m_state, saved_errno, hstate⟩ := afterCall_eq
    { link with
      m_out := (Sock.bufferedSend link.m_out result).1
      accepted := link.accepted ++ SendResult.bytes link.m_out result }
    .writeError (SendResult.errno result)
  rw [Traced.processWrite, Completes]
  simp only [hstate, log_tell_bind, log_showing_bind]
  by_cases hcalled : (Sock.bufferedSend link.m_out result).2 > 0 ∧
      (Sock.bufferedSend link.m_out result).1.pending = 0
  · rw [if_pos hcalled]
    have hmem := callback_mem_invoke { link with
      m_out := (Sock.bufferedSend link.m_out result).1.reset
      accepted := link.accepted ++ SendResult.bytes link.m_out result
      m_state, saved_errno } .onWriteCompleted link.onWriteCompleted actions
    exact iff_of_true ⟨link.onWriteCompleted,
      List.mem_cons_of_mem _ (List.mem_cons_of_mem _ hmem)⟩ hcalled
  · rw [if_neg hcalled]
    simp [Logged.pure, hcalled]

/-- A write callback reports a drained buffer exactly if the send did not fail
with nothing to send. -/
theorem onWriteCompleted_truthful_iff {result : SendResult}
    {actions : List Action} :
    (∀ isSet, .callback .onWriteCompleted isSet ∈
        (Traced.processWrite link result actions).log →
      link.m_out.pending ≠ 0 ∧
        (∃ got, SendResult.got link.m_out result = some got) ∧
          (Sock.bufferedSend link.m_out result).1.pending = 0) ↔
      ((∃ errno, result = .failed errno) → link.m_out.pending ≠ 0) := by
  have hmem : (∀ isSet, .callback .onWriteCompleted isSet ∈
        (Traced.processWrite link result actions).log →
      link.m_out.pending ≠ 0 ∧
        (∃ got, SendResult.got link.m_out result = some got) ∧
          (Sock.bufferedSend link.m_out result).1.pending = 0) ↔
      (Completes link result → link.m_out.pending ≠ 0 ∧
        (∃ got, SendResult.got link.m_out result = some got) ∧
          (Sock.bufferedSend link.m_out result).1.pending = 0) := by
    rw [← callback_mem_processWrite_iff, exists_imp]
  rw [hmem]
  cases result with
  | failed errno =>
      have hfailed : failedSize > 0 := by decide
      simp [Completes, Sock.bufferedSend, SendResult.got, hfailed]
  | sent count =>
      refine iff_of_true ?_ ?_
      · rintro ⟨hgot, hdrained⟩
        refine ⟨?_, ⟨_, rfl⟩, hdrained⟩
        simp only [Sock.bufferedSend] at hgot
        omega
      · rintro ⟨errno, ⟨⟩⟩

/-! ## Whether an event sends -/

theorem perform_spec (hvalid : link.m_out.Valid) (action : Action) :
    ∃ next, link.perform action = some next ∧ next.m_out.Valid ∧
      (next.m_state = .ok ↔ link.m_state = .ok ∧ action ≠ .makeDisconnect) ∧
      (next.m_out.pending ≠ 0 ↔ link.m_out.pending ≠ 0 ∨
        ∃ data, action = .write data ∧ data ≠ []) := by
  cases action with
  | advance l => exact ⟨_, rfl, hvalid, by simp [advance], by simp [advance]⟩
  | write data =>
      obtain ⟨m_out, happend, hafter, hbytes⟩ := hvalid.append data
      refine ⟨_, Option.map_eq_some_iff.mpr ⟨m_out, happend, rfl⟩, hafter,
        by simp, ?_⟩
      simp only
      rw [Ne, Ne, hafter.pending_eq_zero_iff, hvalid.pending_eq_zero_iff, hbytes,
        List.append_eq_nil_iff]
      simp only [Action.write.injEq, exists_eq_left']
      exact not_and_or
  | setReceiving val =>
      refine ⟨_, rfl, ?_⟩
      rw [setReceiving]
      split <;> simp [hvalid]
  | makeDisconnect =>
      refine ⟨_, rfl, ?_⟩
      rw [makeDisconnect]
      split <;> simp [*]
  | start =>
      refine ⟨_, rfl, ?_⟩
      rcases link.live_or_ended with hlive | hended
      · rw [start_of_live hlive]
        simp [hvalid]
      · rw [start_of_ended hended]
        simp [hvalid]

/-- What the calls of a client make of the state and the output. -/
theorem performAll_spec (hvalid : link.m_out.Valid) (actions : List Action) :
    ∃ next, link.performAll actions = some next ∧
      (next.m_state = .ok ↔ link.m_state = .ok ∧ .makeDisconnect ∉ actions) ∧
      (next.m_out.pending ≠ 0 ↔ link.m_out.pending ≠ 0 ∨
        ∃ data, .write data ∈ actions ∧ data ≠ []) := by
  induction actions generalizing link with
  | nil => exact ⟨link, rfl, by simp, by simp⟩
  | cons action actions ih =>
      obtain ⟨middle, hfirst, hmiddle, hstate, hout⟩ := perform_spec hvalid action
      obtain ⟨next, hrest, hstate', hout'⟩ := ih hmiddle
      refine ⟨next, ?_, ?_, ?_⟩
      · rw [StreamLink.performAll, List.foldlM_cons, hfirst]
        exact hrest
      · rw [hstate', hstate, List.mem_cons, not_or, and_assoc, ne_comm]
      · rw [hout', hout, or_assoc]
        simp only [List.mem_cons, or_and_right, exists_or, eq_comm]

/-- A receive that fails for now, with nothing pending, changes nothing. -/
theorem processRead_transient {errno : Errno} {actions : List Action}
    (htransient : errno.transient = true) (hpending : link.m_in.pending = 0) :
    link.processRead (.failed errno) actions = some link := by
  have hfailed : failedSize ≠ 0 := by decide
  simp [StreamLink.processRead, Sock.bufferedRecv, RecvResult.errno,
    RecvResult.bytes, afterRecv, afterCall, htransient, hfailed, hpending]

theorem processWrite_transient {errno : Errno} {actions : List Action}
    (htransient : errno.transient = true) (hpending : link.m_out.pending ≠ 0) :
    link.processWrite (.failed errno) actions = some link := by
  simp [StreamLink.processWrite, Sock.bufferedSend, SendResult.errno,
    SendResult.bytes, afterCall, htransient, hpending]

/-- Bytes that fit and are not the end of the stream go to the read callback. -/
theorem processRead_received (hbuffered : Buffered link) {data : List UInt8}
    (hne : data ≠ []) (hfits : data.length ≤ link.m_in.writable)
    (hread : link.onRead = true) (actions : List Action) :
    ∃ next, link.processRead (.received data) actions = some next ∧
      (next.m_state = .ok ↔ link.m_state = .ok ∧ .makeDisconnect ∉ actions) ∧
      (next.m_out.pending ≠ 0 ↔ link.m_out.pending ≠ 0 ∨
        ∃ data, .write data ∈ actions ∧ data ≠ []) := by
  obtain ⟨m_in, hrecv, hafter, hbytes⟩ :=
    recvBytes_of_le hbuffered.in_valid hfits
  have hpos : data.length > 0 := List.length_pos_iff.mpr hne
  have hpending := hafter.pending_ne_zero hbytes hne
  let received := { link with m_in, received := link.received ++ data }
  have hvalid : received.m_out.Valid := hbuffered.out_valid
  obtain ⟨next, hperform, hstate, hout⟩ := performAll_spec hvalid actions
  refine ⟨if next.m_in.pending = 0 then { next with m_in := next.m_in.reset }
    else next, ?_, ?_, ?_⟩
  · rw [StreamLink.processRead, Sock.bufferedRecv, readv_of_le hfits, hrecv,
      Option.map_some, Option.bind_some]
    simp only [RecvResult.errno, RecvResult.bytes, readv_of_le hfits, afterRecv,
      afterCall, if_neg hpos.ne']
    rw [if_pos ⟨hpos, hpending⟩, StreamLink.invoke, if_pos hread, hperform,
      Option.map_some]
  · rw [← hstate]
    split <;> rfl
  · rw [← hout]
    split <;> rfl

/-- Bytes that do not fit, or a read callback that is not set. -/
theorem processRead_received_none (hbuffered : Buffered link)
    {data : List UInt8} (hne : data ≠ [])
    (hundefined : data.length ≤ link.m_in.writable → link.onRead = false)
    (actions : List Action) :
    link.processRead (.received data) actions = none := by
  rcases Nat.lt_or_ge link.m_in.writable data.length with hspill | hfits
  · exact processRead_eq_none hbuffered.in_valid hspill
  · obtain ⟨m_in, hrecv, hafter, hbytes⟩ :=
      recvBytes_of_le hbuffered.in_valid hfits
    have hpos : data.length > 0 := List.length_pos_iff.mpr hne
    have hpending := hafter.pending_ne_zero hbytes hne
    rw [StreamLink.processRead, Sock.bufferedRecv, readv_of_le hfits, hrecv,
      Option.map_some, Option.bind_some]
    simp only [RecvResult.errno, afterRecv, afterCall, if_neg hpos.ne']
    rw [if_pos ⟨hpos, hpending⟩, StreamLink.invoke, if_neg, Option.map_none]
    simp [hundefined hfits]

/-- The end of the stream. -/
theorem processRead_end (hbuffered : Buffered link) (actions : List Action) :
    ∃ m_in, link.processRead (.received []) actions = some
      { link with
        m_in, m_state := .disconnect, received := link.received ++ [] } := by
  obtain ⟨m_in, hrecv, -, -⟩ :=
    recvBytes_of_le hbuffered.in_valid
      (show ([] : List UInt8).length ≤ _ from Nat.zero_le _)
  refine ⟨m_in, ?_⟩
  have hempty : Sock.readv link.m_in [] = [] := List.take_nil
  rw [StreamLink.processRead, Sock.bufferedRecv, hempty, hrecv,
    Option.map_some, Option.bind_some]
  simp [RecvResult.errno, RecvResult.bytes, afterRecv, afterCall, hempty]

/-- Where no receive fails with bytes pending, the event goes on to send exactly
if it `Sends`, and then with `HasOutput`. -/
theorem reaches_iff (hbuffered : Buffered link) {event : Event}
    (hrecv : RecvFails event → link.m_in.pending = 0) :
    (Sends link event ∧ ∃ middle,
        link.processRead event.recv event.readActions = some middle ∧
        middle.m_state = .ok ∧
        (middle.m_out.pending ≠ 0 ↔ HasOutput link event)) ∨
      (¬ Sends link event ∧ ∀ middle,
        link.processRead event.recv event.readActions = some middle →
          middle.m_state ≠ .ok) := by
  cases hresult : event.recv with
  | failed errno =>
      have hpending := hrecv ⟨errno, hresult⟩
      simp only [Sends, HasOutput, hresult]
      by_cases htransient : errno.transient = true
      · rw [processRead_transient htransient hpending]
        by_cases hstate : link.m_state = .ok
        · exact .inl ⟨⟨hstate, htransient⟩, link, rfl, hstate, by simp⟩
        · refine .inr ⟨fun hsends => hstate hsends.1, ?_⟩
          rintro middle ⟨⟩
          exact hstate
      · refine .inr ⟨fun hsends => htransient hsends.2, fun middle hread => ?_⟩
        have hfailed : failedSize ≠ 0 := by decide
        simp only [StreamLink.processRead, Sock.bufferedRecv, RecvResult.errno,
          RecvResult.bytes, afterRecv, afterCall, htransient, hfailed, hpending,
          Option.bind_some, if_false, ne_eq, not_true_eq_false, and_false,
          Option.some.injEq, Bool.false_eq_true] at hread
        rw [← hread]
        rintro ⟨⟩
  | received data =>
      simp only [Sends, HasOutput, hresult]
      by_cases hne : data = []
      · subst hne
        obtain ⟨m_in, hread⟩ := processRead_end hbuffered event.readActions
        refine .inr ⟨fun hsends => hsends.2.1 rfl, ?_⟩
        rw [hread]
        rintro middle ⟨⟩ ⟨⟩
      by_cases hdefined : data.length ≤ link.m_in.writable ∧ link.onRead = true
      · obtain ⟨hfits, hcallback⟩ := hdefined
        obtain ⟨next, hread, hstate, hout⟩ := processRead_received hbuffered hne
          hfits hcallback event.readActions
        by_cases hok : link.m_state = .ok ∧ .makeDisconnect ∉ event.readActions
        · exact .inl ⟨⟨hok.1, hne, hfits, hcallback, hok.2⟩, next, hread,
            hstate.mpr hok, hout⟩
        · refine .inr ⟨fun hsends => hok ⟨hsends.1, hsends.2.2.2.2⟩, ?_⟩
          rw [hread]
          rintro middle ⟨⟩ hmiddle
          exact hok (hstate.mp hmiddle)
      · have hnone := processRead_received_none hbuffered hne
          (fun hfits => by simpa [hfits] using hdefined) event.readActions
        refine .inr ⟨fun hsends => hdefined ⟨hsends.2.2.1, hsends.2.2.2.1⟩, ?_⟩
        rw [hnone]
        rintro middle ⟨⟩

/-! ## The main result -/

/-- The socket calls and the callbacks about them. -/
def IsCall : Entry → Prop
  | .recv _ => True
  | .send _ _ _ _ => True
  | .callback .onRead _ => True
  | .callback .onWriteCompleted _ => True
  | _ => False

theorem log_settle (link : StreamLink) (event : Event) :
    (Traced.settle link event).Safe (fun entry => ¬ IsCall entry)
      fun _ => True := by
  rw [Traced.settle, safe_bind, safe_tell]
  refine ⟨id, ?_⟩
  rintro ⟨prepared, result⟩ -
  cases result with
  | true =>
      change (Logged.pure prepared).Safe _ _
      exact safe_pure.mpr trivial
  | false =>
      have hdestroy : (Traced.destroy prepared.stop).Safe
          (fun entry => ¬ IsCall entry) fun _ => True := by
        rw [Traced.destroy]
        split
        · exact safe_tell.mpr ⟨id, fun _ _ => trivial⟩
        · exact safe_pure.mpr trivial
      change ((Traced.destroy prepared.stop).bind _).Safe _ _
      rw [safe_bind]
      refine hdestroy.mono fun closed _ => ?_
      have hinvoke := log_invoke
        { closed with disposed := closed.disposed + 1 } .onDispose
        closed.onDispose event.disposeActions
      refine ⟨fun entry hentry => ?_, hinvoke.2⟩
      rcases hinvoke.1 entry hentry with rfl | ⟨m_state, rfl⟩
      · exact id
      · exact id

/-- The calls of an event are those of its receive, and of its send if it goes on
to it. -/
theorem mem_onEvent_iff {event : Event} {entry : Entry} (hcall : IsCall entry) :
    entry ∈ (Traced.onEvent link event).log ↔
      entry ∈ (Traced.processRead link event.recv event.readActions).log ∨
        ∃ middle, link.processRead event.recv event.readActions = some middle ∧
          middle.m_state = .ok ∧ entry ∈
            (Traced.processWrite middle event.send event.writeActions).log := by
  have hsettle : ∀ after, entry ∉ (Traced.settle after event).log :=
    fun after hentry => (log_settle after event).1 entry hentry hcall
  have hread : evRead ≠ 0 := by decide
  have hwrite : evWrite ≠ 0 := by decide
  have hprocess : entry ∈ (Traced.onEvent link event).log ↔
      entry ∈ (Traced.process link event).log := by
    rw [Traced.onEvent]
    cases hvalue : (Traced.process link event).value with
    | none => rw [log_bind_of_none hvalue]
    | some after =>
        rw [log_bind_of_some hvalue, List.mem_append, or_iff_left (hsettle after)]
  rw [hprocess, Traced.process, if_pos (.inr hread)]
  cases hvalue : link.processRead event.recv event.readActions with
  | none =>
      rw [log_bind_of_none (Traced.value_processRead.trans hvalue)]
      simp
  | some middle =>
      rw [log_bind_of_some (Traced.value_processRead.trans hvalue),
        List.mem_append]
      by_cases hstate : middle.m_state = .ok
      · simp [hstate, hwrite]
      · simp [hstate, Logged.pure]

/-- The link that the event goes on to send from. -/
def Reaches (link : StreamLink) (event : Event) (middle : StreamLink) : Prop :=
  link.processRead event.recv event.readActions = some middle ∧
    middle.m_state = .ok

variable {event : Event}

theorem Reaches.unique {middle other : StreamLink}
    (hmiddle : Reaches link event middle) (hother : Reaches link event other) :
    middle = other := by
  have hsame := hmiddle.1.symm.trans hother.1
  exact Option.some.inj hsame

theorem recv_mem_iff {got : Option ℕ} :
    .recv got ∈ (Traced.onEvent link event).log ↔
      got = RecvResult.got link.m_in event.recv := by
  have hcall : IsCall (.recv got) := trivial
  refine (mem_onEvent_iff hcall).trans ?_
  constructor
  · rintro (hread | ⟨middle, -, -, hwrite⟩)
    · rcases (log_processRead _ _ _).1 _ hread with
        heq | ⟨_, heq⟩ | heq <;> cases heq
      rfl
    · rcases (log_processWrite _ _ _).1 _ hwrite with
        heq | ⟨_, heq⟩ | heq <;> cases heq
  · rintro rfl
    exact .inl (recv_mem_processRead _ _ _)

theorem onRead_mem_iff {isSet : Bool} :
    .callback .onRead isSet ∈ (Traced.onEvent link event).log ↔
      .callback .onRead isSet ∈
        (Traced.processRead link event.recv event.readActions).log := by
  have hcall : IsCall (.callback .onRead isSet) := trivial
  refine (mem_onEvent_iff hcall).trans (or_iff_left ?_)
  rintro ⟨middle, -, -, hwrite⟩
  rcases (log_processWrite _ _ _).1 _ hwrite with
    heq | ⟨_, heq⟩ | heq <;> cases heq

theorem send_mem_iff {m_state : LinkState} {before after : ℕ}
    {got : Option ℕ} :
    .send m_state before got after ∈ (Traced.onEvent link event).log ↔
      ∃ middle, Reaches link event middle ∧ m_state = middle.m_state ∧
        before = middle.m_out.pending ∧
        got = SendResult.got middle.m_out event.send ∧
        after = (Sock.bufferedSend middle.m_out event.send).1.pending := by
  have hcall : IsCall (.send m_state before got after) := trivial
  refine (mem_onEvent_iff hcall).trans ?_
  constructor
  · rintro (hread | ⟨middle, hmiddle, hstate, hwrite⟩)
    · rcases (log_processRead _ _ _).1 _ hread with
        heq | ⟨_, heq⟩ | heq <;> cases heq
    · rcases (log_processWrite _ _ _).1 _ hwrite with
        heq | ⟨_, heq⟩ | heq <;> cases heq
      exact ⟨middle, ⟨hmiddle, hstate⟩, rfl, rfl, rfl, rfl⟩
  · rintro ⟨middle, ⟨hmiddle, hstate⟩, rfl, rfl, rfl, rfl⟩
    exact .inr ⟨middle, hmiddle, hstate, send_mem_processWrite _ _ _⟩

theorem onWriteCompleted_mem_iff {isSet : Bool} :
    .callback .onWriteCompleted isSet ∈ (Traced.onEvent link event).log ↔
      ∃ middle, Reaches link event middle ∧
        .callback .onWriteCompleted isSet ∈
          (Traced.processWrite middle event.send event.writeActions).log := by
  have hcall : IsCall (.callback .onWriteCompleted isSet) := trivial
  refine (mem_onEvent_iff hcall).trans ?_
  constructor
  · rintro (hread | ⟨middle, hmiddle, hstate, hwrite⟩)
    · rcases (log_processRead _ _ _).1 _ hread with
        heq | ⟨_, heq⟩ | heq <;> cases heq
    · exact ⟨middle, ⟨hmiddle, hstate⟩, hwrite⟩
  · rintro ⟨middle, ⟨hmiddle, hstate⟩, hwrite⟩
    exact .inr ⟨middle, hmiddle, hstate, hwrite⟩

theorem unchanged_processRead (hbuffered : Buffered link) {errno : Errno}
    (htransient : errno.transient = true) (hpending : link.m_in.pending = 0)
    (actions : List Action) :
    Unchanged link (Traced.processRead link (.failed errno) actions) := by
  refine ⟨?_, fun callback isSet hmem => ?_⟩
  · rw [Traced.value_processRead]
    exact processRead_transient htransient hpending
  · rcases (log_processRead _ _ _).1 _ hmem with
      heq | ⟨_, heq⟩ | heq <;> cases heq
    have hdelivers : Delivers link (.failed errno) :=
      (callback_mem_processRead_iff hbuffered.in_valid).mp ⟨_, hmem⟩
    exact hdelivers hpending

theorem unchanged_processWrite {errno : Errno}
    (htransient : errno.transient = true) (hpending : link.m_out.pending ≠ 0)
    (actions : List Action) :
    Unchanged link (Traced.processWrite link (.failed errno) actions) := by
  refine ⟨?_, fun callback isSet hmem => ?_⟩
  · rw [Traced.value_processWrite]
    exact processWrite_transient htransient hpending
  · rcases (log_processWrite _ _ _).1 _ hmem with
      heq | ⟨_, heq⟩ | heq <;> cases heq
    have hcompletes : Completes link (.failed errno) :=
      callback_mem_processWrite_iff.mp ⟨_, hmem⟩
    exact hpending hcompletes.2

/-- The promise in terms of the link that sends. -/
theorem truthful_iff_reaches (hbuffered : Buffered link) :
    Truthful link event ↔ Fits link event ∧ event.revents &&& evRead ≠ 0 ∧
      (RecvFails event → link.m_in.pending = 0) ∧
      ∀ middle, Reaches link event middle → event.revents &&& evWrite ≠ 0 ∧
        (SendFails event → middle.m_out.pending ≠ 0) := by
  constructor
  · intro htruthful
    refine ⟨(bufferedRecv_isSome_iff hbuffered.in_valid event).mp
      htruthful.defined, htruthful.recv _ (recv_mem_iff.mpr rfl), ?_, ?_⟩
    · apply (onRead_truthful_iff hbuffered.in_valid).mp
      intro isSet hmem
      obtain ⟨got, hgot, hpos⟩ :=
        htruthful.onRead isSet (onRead_mem_iff.mpr hmem)
      exact ⟨got, (recv_mem_iff.mp hgot).symm, hpos⟩
    · intro middle hreaches
      refine ⟨(htruthful.send _ _ _ _ (send_mem_iff.mpr
        ⟨middle, hreaches, rfl, rfl, rfl, rfl⟩)).1, ?_⟩
      apply onWriteCompleted_truthful_iff.mp
      intro isSet hmem
      obtain ⟨m_state, before, got, hpending, hsend⟩ :=
        htruthful.onWriteCompleted isSet
          (onWriteCompleted_mem_iff.mpr ⟨middle, hreaches, hmem⟩)
      obtain ⟨other, hother, -, rfl, hgot, hdrained⟩ := send_mem_iff.mp hsend
      obtain rfl := hreaches.unique hother
      exact ⟨hpending, ⟨got, hgot.symm⟩, hdrained.symm⟩
  · rintro ⟨hfits, hread, hrecv, hsend⟩
    have hdefined :=
      (bufferedRecv_isSome_iff hbuffered.in_valid event).mpr hfits
    refine ⟨hdefined, fun _ _ => hread, ?_, ?_, ?_, ?_, ?_⟩
    · intro m_state before got after hmem
      obtain ⟨middle, hreaches, rfl, -⟩ := send_mem_iff.mp hmem
      exact ⟨(hsend middle hreaches).1, hreaches.2⟩
    · intro isSet hmem
      obtain ⟨got, hgot, hpos⟩ :=
        (onRead_truthful_iff hbuffered.in_valid).mpr hrecv isSet
          (onRead_mem_iff.mp hmem)
      exact ⟨got, recv_mem_iff.mpr hgot.symm, hpos⟩
    · intro isSet hmem
      obtain ⟨middle, hreaches, hwrite⟩ := onWriteCompleted_mem_iff.mp hmem
      obtain ⟨hpending, ⟨got, hgot⟩, hdrained⟩ :=
        onWriteCompleted_truthful_iff.mpr (hsend middle hreaches).2 isSet hwrite
      exact ⟨middle.m_state, middle.m_out.pending, got, hpending,
        send_mem_iff.mpr ⟨middle, hreaches, rfl, rfl, hgot.symm, hdrained.symm⟩⟩
    · intro errno hfailed htransient
      rw [hfailed]
      exact unchanged_processRead hbuffered htransient (hrecv ⟨errno, hfailed⟩) _
    · intro errno hfailed htransient middle hmiddle hstate
      have hpending :=
        (hsend middle ⟨hmiddle, hstate⟩).2 ⟨errno, hfailed⟩
      rw [hfailed]
      exact unchanged_processWrite htransient hpending _

/-- In every link state and event, a link is truthful if and only if the bytes
received fit, the mask reports what the event does, no receive fails while bytes
are pending, and no send fails with nothing to send. -/
theorem truthful_iff (hreach : system.Reachable link) :
    Truthful link event ↔ Meets link event := by
  have hbuffered := reachable_buffered hreach
  rw [truthful_iff_reaches hbuffered]
  constructor
  · rintro ⟨hfits, hread, hrecv, hsend⟩
    rcases reaches_iff hbuffered hrecv with
      ⟨-, middle, hmiddle, hstate, hout⟩ | ⟨hnot, -⟩
    · obtain ⟨hwrite, hpending⟩ := hsend middle ⟨hmiddle, hstate⟩
      exact ⟨hfits, hread, hrecv, fun _ => hwrite, fun _ hfails =>
        hout.mp (hpending hfails)⟩
    · exact ⟨hfits, hread, hrecv, fun hsends => absurd hsends hnot,
        fun hsends => absurd hsends hnot⟩
  · intro hmeets
    refine ⟨hmeets.fits, hmeets.read, hmeets.recv, fun middle hreaches => ?_⟩
    rcases reaches_iff hbuffered hmeets.recv with
      ⟨hsends, other, hother, hstate, hout⟩ | ⟨-, hnot⟩
    · obtain rfl := hreaches.unique ⟨hother, hstate⟩
      exact ⟨hmeets.write hsends, fun hfails =>
        hout.mpr (hmeets.send hsends hfails)⟩
    · exact absurd hreaches.2 (hnot middle hreaches.1)

/-- A link with all callbacks, just initialised. -/
def fresh : StreamLink :=
  initBy { StreamLink.new ⟨0, ⟨false, false⟩, false⟩ with
    onRead := true, onWriteCompleted := true, onDispose := true } (.sock 5)

theorem reachable_fresh : system.Reachable fresh :=
  .init ⟨_, true, true, true, .sock 5, rfl⟩

/-- Two bytes come in, the read callback answers, and the answer goes out. -/
def answered : Event where
  revents := 3
  recv := .received [1, 2]
  send := .sent 1
  readActions := [.advance 2, .write [3]]
  writeActions := []
  disposeActions := []

theorem truthful_iff_answered : Truthful fresh answered := by
  have hfits : Fits fresh answered :=
    show 2 ≤ fresh.m_in.writable by decide
  refine (truthful_iff reachable_fresh).mpr ⟨hfits, by decide, ?_, ?_, ?_⟩
  · rintro ⟨errno, ⟨⟩⟩
  · exact fun _ => by decide
  · rintro - ⟨errno, ⟨⟩⟩

/-- An event that reports the socket writable only receives. -/
theorem not_truthful : ¬ ∀ (link : StreamLink) (event : Event),
    system.Reachable link → Truthful link event := by
  intro htruthful
  have hread := (htruthful fresh { answered with revents := evWrite }
    reachable_fresh).recv _ (recv_mem_iff.mpr rfl)
  exact absurd hread (by decide)

end Sensor.LinkReports
