import Sensor.Reactor.StreamLink

/-!
# What the parts of a stream link leave alone

Neither the calls of a client nor the handling of an event touches the socket,
the descriptor of the watcher or the callbacks, and nothing but the end of a
link stops its watcher or closes its socket.
-/

namespace Sensor

namespace Watcher

theorem setIoEvents_eq (watcher : Watcher) (events : EventMask) :
    watcher.setIoEvents events = { watcher with events } := by
  obtain ⟨fd, old, active⟩ := watcher
  cases active <;> rfl

end Watcher

namespace StreamLink

/-- What every step short of the end of the link keeps. -/
structure Keeps (link next : StreamLink) : Prop where
  sock : next.m_sock = link.m_sock
  fd : next.m_handler.fd = link.m_handler.fd
  active : link.m_handler.active = true → next.m_handler.active = true
  reactor : link.m_reactor = true → next.m_reactor = true
  onRead : next.onRead = link.onRead
  onWriteCompleted : next.onWriteCompleted = link.onWriteCompleted
  onDispose : next.onDispose = link.onDispose
  closed : next.closed = link.closed
  disposed : next.disposed = link.disposed
  out_valid : link.m_out.Valid → next.m_out.Valid

variable {link middle next : StreamLink}

theorem Keeps.refl (link : StreamLink) : link.Keeps link :=
  ⟨rfl, rfl, id, id, rfl, rfl, rfl, rfl, rfl, id⟩

theorem Keeps.trans (hfirst : link.Keeps middle) (hsecond : middle.Keeps next) :
    link.Keeps next where
  sock := hsecond.sock.trans hfirst.sock
  fd := hsecond.fd.trans hfirst.fd
  active := hsecond.active ∘ hfirst.active
  reactor := hsecond.reactor ∘ hfirst.reactor
  onRead := hsecond.onRead.trans hfirst.onRead
  onWriteCompleted := hsecond.onWriteCompleted.trans hfirst.onWriteCompleted
  onDispose := hsecond.onDispose.trans hfirst.onDispose
  closed := hsecond.closed.trans hfirst.closed
  disposed := hsecond.disposed.trans hfirst.disposed
  out_valid := hsecond.out_valid ∘ hfirst.out_valid

/-! ## The watcher -/

theorem prepareEvents_of_live
    (hlive : link.m_state = .ok ∨ link.m_state = .writeError) :
    link.prepareEvents =
      ({ link with m_handler := { link.m_handler with events := link.events } },
        true) := by
  rw [prepareEvents, if_neg, Watcher.setIoEvents_eq]
  rcases hlive with hstate | hstate <;> simp [hstate]

theorem prepareEvents_of_ended
    (hended : link.m_state = .disconnect ∨ link.m_state = .readError) :
    link.prepareEvents = (link, false) :=
  if_pos hended

/-- A link is either at work or at its end. -/
theorem live_or_ended (link : StreamLink) :
    (link.m_state = .ok ∨ link.m_state = .writeError) ∨
      (link.m_state = .disconnect ∨ link.m_state = .readError) := by
  cases link.m_state <;> simp

theorem start_of_live
    (hlive : link.m_state = .ok ∨ link.m_state = .writeError) :
    link.start = { link with
      m_reactor := true
      m_handler := { link.m_handler with
        events := link.events, active := true } } := by
  have hprepare : prepareEvents { link with m_reactor := true } = _ :=
    prepareEvents_of_live hlive
  rw [start, hprepare]
  rfl

theorem start_of_ended
    (hended : link.m_state = .disconnect ∨ link.m_state = .readError) :
    link.start = { link with m_reactor := true } := by
  have hprepare : prepareEvents { link with m_reactor := true } = _ :=
    prepareEvents_of_ended hended
  rw [start, hprepare]

theorem Keeps.start (link : StreamLink) : link.Keeps link.start := by
  rcases link.live_or_ended with hlive | hended
  · rw [start_of_live hlive]
    exact ⟨rfl, rfl, fun _ => rfl, fun _ => rfl, rfl, rfl, rfl, rfl, rfl, id⟩
  · rw [start_of_ended hended]
    exact ⟨rfl, rfl, id, fun _ => rfl, rfl, rfl, rfl, rfl, rfl, id⟩

/-! ## The calls of a client -/

theorem Keeps.write {data : List UInt8} (hwrite : link.write data = some next) :
    link.Keeps next := by
  obtain ⟨m_out, happend, rfl⟩ := Option.map_eq_some_iff.mp hwrite
  refine ⟨rfl, rfl, id, id, rfl, rfl, rfl, rfl, rfl, fun hvalid => ?_⟩
  obtain ⟨after, hafter, hnext, -⟩ := hvalid.append data
  rw [happend, Option.some.injEq] at hafter
  rw [hafter]
  exact hnext

theorem Keeps.perform {action : Action}
    (hperform : link.perform action = some next) : link.Keeps next := by
  cases action with
  | advance l =>
      cases hperform
      exact ⟨rfl, rfl, id, id, rfl, rfl, rfl, rfl, rfl, id⟩
  | write data => exact Keeps.write hperform
  | setReceiving val =>
      cases hperform
      rw [setReceiving]
      split
      · exact ⟨rfl, rfl, id, id, rfl, rfl, rfl, rfl, rfl, id⟩
      · exact .refl link
  | makeDisconnect =>
      cases hperform
      rw [makeDisconnect]
      split
      · exact ⟨rfl, rfl, id, id, rfl, rfl, rfl, rfl, rfl, id⟩
      · exact .refl link
  | start =>
      cases hperform
      exact .start link

/-! ### What every call keeps, many calls keep -/

section Preserves

variable {Inv : StreamLink → Prop} {actions : List Action}

theorem performAll_preserves
    (hperform : ∀ before action after, Inv before →
      before.perform action = some after → Inv after)
    (hlink : Inv link) (hall : link.performAll actions = some next) :
    Inv next := by
  induction actions generalizing link with
  | nil =>
      cases hall
      exact hlink
  | cons action actions ih =>
      rw [performAll, List.foldlM_cons] at hall
      obtain ⟨middle, hfirst, hrest⟩ := Option.bind_eq_some_iff.mp hall
      exact ih (hperform link action middle hlink hfirst) hrest

theorem invoke_preserves {callback : Bool}
    (hperform : ∀ before action after, Inv before →
      before.perform action = some after → Inv after)
    (hlink : Inv link) (hinvoke : link.invoke callback actions = some next) :
    Inv next := by
  rw [invoke] at hinvoke
  split at hinvoke
  · exact performAll_preserves hperform hlink hinvoke
  · cases hinvoke

end Preserves

theorem Keeps.performAll {actions : List Action}
    (hperform : link.performAll actions = some next) : link.Keeps next :=
  performAll_preserves (fun _ _ _ hkeeps hcall => hkeeps.trans (.perform hcall))
    (.refl link) hperform

theorem Keeps.invoke {callback : Bool} {actions : List Action}
    (hinvoke : link.invoke callback actions = some next) : link.Keeps next :=
  invoke_preserves (fun _ _ _ hkeeps hcall => hkeeps.trans (.perform hcall))
    (.refl link) hinvoke

/-! ## Events -/

section Preserves

variable {Inv : StreamLink → Prop} {actions : List Action}

/-- What holds of the link when its receive and state are in, and every call
keeps, `processRead` leaves. -/
theorem processRead_preserves {result : RecvResult}
    (hperform : ∀ before action after, Inv before →
      before.perform action = some after → Inv after)
    (hreset : ∀ before, Inv before →
      Inv { before with m_in := before.m_in.reset })
    (hrecv : ∀ m_in got m_state saved_errno,
      Sock.bufferedRecv link.m_in result = some (m_in, got) →
        Inv { link with
          m_in, m_state, saved_errno
          received := link.received ++ RecvResult.bytes link.m_in result })
    (hread : link.processRead result actions = some next) : Inv next := by
  obtain ⟨⟨m_in, got⟩, hgot, hafter⟩ := Option.bind_eq_some_iff.mp hread
  obtain ⟨m_state, saved_errno, hstate⟩ := afterRecv_eq
    { link with
      m_in
      received := link.received ++ RecvResult.bytes link.m_in result }
    (RecvResult.errno result) got
  simp only [hstate] at hafter
  have hbefore := hrecv m_in got m_state saved_errno hgot
  split at hafter
  · obtain ⟨after, hinvoke, rfl⟩ := Option.map_eq_some_iff.mp hafter
    have hinvoked := invoke_preserves hperform hbefore hinvoke
    split
    · exact hreset after hinvoked
    · exact hinvoked
  · cases hafter
    exact hbefore

/-- What holds of the link when its send and state are in, and every call and
the reset of a drained output keep, `processWrite` leaves. -/
theorem processWrite_preserves {result : SendResult}
    (hperform : ∀ before action after, Inv before →
      before.perform action = some after → Inv after)
    (hreset : ∀ before, Inv before → before.m_out.pending = 0 →
      Inv { before with m_out := before.m_out.reset })
    (hsend : ∀ m_state saved_errno, Inv { link with
      m_out := (Sock.bufferedSend link.m_out result).1
      accepted := link.accepted ++ SendResult.bytes link.m_out result
      m_state, saved_errno })
    (hwrite : link.processWrite result actions = some next) : Inv next := by
  obtain ⟨m_state, saved_errno, hstate⟩ := afterCall_eq
    { link with
      m_out := (Sock.bufferedSend link.m_out result).1
      accepted := link.accepted ++ SendResult.bytes link.m_out result }
    .writeError (SendResult.errno result)
  simp only [processWrite, hstate] at hwrite
  have hbefore := hsend m_state saved_errno
  split at hwrite
  case isTrue hdone =>
    exact invoke_preserves hperform (hreset _ hbefore hdone.2) hwrite
  case isFalse =>
    cases hwrite
    exact hbefore

end Preserves

theorem Keeps.processRead {result : RecvResult} {actions : List Action}
    (hread : link.processRead result actions = some next) :
    link.Keeps next := by
  refine processRead_preserves
    (fun _ _ _ hkeeps hcall => hkeeps.trans (.perform hcall)) ?_ ?_ hread
  · intro before hkeeps
    exact hkeeps.trans ⟨rfl, rfl, id, id, rfl, rfl, rfl, rfl, rfl, id⟩
  · intro m_in got m_state saved_errno _
    exact ⟨rfl, rfl, id, id, rfl, rfl, rfl, rfl, rfl, id⟩

theorem bufferedSend_valid {buffer : Buffer} (hvalid : buffer.Valid)
    (result : SendResult) : (Sock.bufferedSend buffer result).1.Valid := by
  cases result with
  | sent count =>
      simp only [Sock.bufferedSend]
      split
      · exact hvalid.processed (Nat.min_le_right _ _)
      · exact hvalid
  | failed errno => exact hvalid

theorem Keeps.processWrite {result : SendResult} {actions : List Action}
    (hwrite : link.processWrite result actions = some next) :
    link.Keeps next := by
  refine processWrite_preserves
    (fun _ _ _ hkeeps hcall => hkeeps.trans (.perform hcall)) ?_ ?_ hwrite
  · intro before hkeeps _
    exact hkeeps.trans ⟨rfl, rfl, id, id, rfl, rfl, rfl, rfl, rfl,
      fun _ => Buffer.reset_valid _⟩
  · intro m_state saved_errno
    exact ⟨rfl, rfl, id, id, rfl, rfl, rfl, rfl, rfl,
      fun hvalid => bufferedSend_valid hvalid result⟩

/-- Every event receives, and sends on an `OK` link, whatever its mask. -/
theorem process_eq (link : StreamLink) (event : Event) :
    link.process event =
      (link.processRead event.recv event.readActions).bind fun after =>
        if after.m_state = .ok then
          after.processWrite event.send event.writeActions
        else some after := by
  simp [StreamLink.process, evRead, evWrite]

theorem Keeps.process {event : Event}
    (hprocess : link.process event = some next) : link.Keeps next := by
  rw [process_eq] at hprocess
  obtain ⟨middle, hread, hwrite⟩ := Option.bind_eq_some_iff.mp hprocess
  apply (Keeps.processRead hread).trans
  split at hwrite
  · exact .processWrite hwrite
  · cases hwrite
    exact .refl _

/-- A link at work gets the mask it computes. -/
theorem settle_of_live {event : Event}
    (hlive : link.m_state = .ok ∨ link.m_state = .writeError) :
    link.settle event = some
      { link with
        m_handler := { link.m_handler with events := link.events } } := by
  rw [settle, prepareEvents_of_live hlive]

theorem destroy_eq (link : StreamLink) : link.destroy =
    { link with closed := link.closed + if link.m_sock ≠ 0 then 1 else 0 } := by
  rw [destroy]
  split <;> rfl

/-- A link at its end is stopped and closed before its dispose callback runs. -/
theorem settle_of_ended {event : Event}
    (hended : link.m_state = .disconnect ∨ link.m_state = .readError) :
    link.settle event =
      { link with
        m_handler := link.m_handler.stop
        closed := link.closed + if link.m_sock ≠ 0 then 1 else 0
        disposed := link.disposed + 1 }.invoke link.onDispose
          event.disposeActions := by
  rw [settle, prepareEvents_of_ended hended]
  simp only [destroy_eq]
  rfl

/-- What the parts of an event and every call keep, and what does not depend on
the watcher and the counts of the end, a whole event keeps. -/
theorem onEvent_preserves {Inv : StreamLink → Prop} {event : Event}
    (hperform : ∀ before action after, Inv before →
      before.perform action = some after → Inv after)
    (hread : ∀ before after, Inv before →
      before.processRead event.recv event.readActions = some after → Inv after)
    (hwrite : ∀ before after, Inv before →
      before.processWrite event.send event.writeActions = some after →
        Inv after)
    (hend : ∀ before m_handler closed disposed, Inv before →
      Inv { before with m_handler, closed, disposed })
    (hlink : Inv link) (hevent : link.onEvent event = some next) :
    Inv next := by
  obtain ⟨after, hprocess, hsettle⟩ := Option.bind_eq_some_iff.mp hevent
  rw [process_eq] at hprocess
  obtain ⟨middle, hreceive, hsend⟩ := Option.bind_eq_some_iff.mp hprocess
  have hmiddle := hread link middle hlink hreceive
  have hafter : Inv after := by
    split at hsend
    · exact hwrite middle after hmiddle hsend
    · cases hsend
      exact hmiddle
  rcases after.live_or_ended with hlive | hended
  · rw [settle_of_live hlive] at hsettle
    cases hsettle
    exact hend after _ _ _ hafter
  · rw [settle_of_ended hended] at hsettle
    exact invoke_preserves hperform (hend after _ _ _ hafter) hsettle

end StreamLink

end Sensor
