import Sensor.Reactor.StreamLink

/-!
# The inbound byte stream of a link

While a receive fits into the rest of the input buffer its bytes reach the
client unchanged.  A receive that reaches the extension makes `bufferedRecv`
advance the write pointer past the end of the allocation before it appends the
rest, and the append then copies outside the buffer.
-/

namespace Sensor.StreamLink

open Region

variable {link next : StreamLink}

/-- A read event: what the socket has, and how far the read callback advances
in its calls of `advance`. -/
structure ReadEvent where
  recv : RecvResult
  advances : List ℕ

/-- The link after a read event. -/
def read (link : StreamLink) (event : ReadEvent) : Option StreamLink :=
  link.processRead event.recv (event.advances.map .advance)

/-- The bytes consumed followed by those pending are the bytes received, and
the pointers of the buffer are in order. -/
structure Delivered (link : StreamLink) : Prop where
  stream_eq : link.consumed ++ link.m_in.pendingBytes = link.received
  valid : link.m_in.Valid

/-- Every event of the run is handled without undefined behaviour and leaves
the stream delivered. -/
def Delivers (link : StreamLink) : List ReadEvent → Prop
  | [] => link.Delivered
  | event :: events =>
      link.Delivered ∧ ∃ next, link.read event = some next ∧
        next.Delivers events

/-- The number of bytes the socket has. -/
def RecvResult.length : RecvResult → ℕ
  | .received data => data.length
  | .failed _ => 0

/-- No event of the run receives more than the rest of the buffer holds. -/
def NoSpill (link : StreamLink) : List ReadEvent → Prop
  | [] => True
  | event :: events =>
      RecvResult.length event.recv ≤ link.m_in.writable ∧
        ∀ next, link.read event = some next → next.NoSpill events

/-! ## Receiving -/

/-- Bytes that fit are added behind the pending ones. -/
theorem recvBytes_of_le {buffer : Buffer} (hvalid : buffer.Valid)
    {bytes : List UInt8} (hfits : bytes.length ≤ buffer.writable) :
    ∃ after, Sock.recvBytes buffer bytes = some after ∧ after.Valid ∧
      after.pendingBytes = buffer.pendingBytes ++ bytes := by
  have hroom : buffer.w + bytes.length ≤ buffer.size := by
    have hle := hvalid.w_le
    rw [hvalid.writable_eq] at hfits
    omega
  obtain ⟨stored, hstore, hafter, -, hbytes⟩ := hvalid.store_written hroom
  refine ⟨stored.written bytes.length, ?_, hafter, hbytes⟩
  have hempty : bytes.length = 0 → stored.written bytes.length = stored := by
    intro hzero
    rw [hzero]
    rfl
  rw [Sock.recvBytes, List.take_of_length_le hfits, hstore, Option.bind_some,
    if_neg (Nat.not_lt.mpr hfits)]
  split
  · rfl
  · rw [hempty (by omega)]

/-- Bytes that reach the extension end in a copy outside the buffer. -/
theorem recvBytes_of_lt {buffer : Buffer} (hvalid : buffer.Valid)
    {bytes : List UInt8} (hspill : buffer.writable < bytes.length)
    (hbound : bytes.length ≤ buffer.writable + Sock.extension) :
    Sock.recvBytes buffer bytes = none := by
  have hle := hvalid.w_le
  have hwritable := hvalid.writable_eq
  have hextension : Sock.extension = 4096 := rfl
  have hroom : buffer.w + (bytes.take buffer.writable).length ≤
      buffer.size := by
    rw [List.length_take]
    omega
  rw [Sock.recvBytes, Buffer.store, if_pos hroom, Option.bind_some,
    if_pos hspill]
  apply Buffer.append_of_past_end
  · simp only [Buffer.written]
    omega
  · simp only [Buffer.written, List.length_drop]
    omega

/-! ## The read callback -/

/-- The client takes bytes out of the buffer, and nothing else changes. -/
theorem Delivered.advance (hlink : link.Delivered) {count : ℕ}
    (hcount : count ≤ link.m_in.pending) : (link.advance count).Delivered where
  stream_eq := by
    have hstream := hlink.stream_eq
    rw [hlink.valid.pendingBytes_processed hcount, ← List.append_assoc]
      at hstream
    exact hstream
  valid := hlink.valid.processed hcount

theorem Delivered.performAll (hlink : link.Delivered) (advances : List ℕ) :
    ∃ next, link.performAll (advances.map .advance) = some next ∧
      next.Delivered ∧ next.onRead = link.onRead := by
  induction advances generalizing link with
  | nil => exact ⟨link, rfl, hlink, rfl⟩
  | cons count advances ih =>
      have hnext := hlink.advance (Nat.min_le_right count link.m_in.pending)
      obtain ⟨last, hperform, hlast, hread⟩ := ih hnext
      refine ⟨last, ?_, hlast, hread⟩
      rw [StreamLink.performAll, List.map_cons, List.foldlM_cons]
      exact hperform

/-- The read callback runs, and the buffer is reset if it left it empty. -/
theorem Delivered.invoke (hlink : link.Delivered) (hread : link.onRead = true)
    (advances : List ℕ) :
    ∃ next, (link.invoke link.onRead (advances.map .advance)).map
        (fun after => if after.m_in.pending = 0 then
          { after with m_in := after.m_in.reset } else after) = some next ∧
      next.Delivered ∧ next.onRead = true := by
  obtain ⟨after, hperform, hafter, honRead⟩ := hlink.performAll advances
  rw [StreamLink.invoke, if_pos hread, hperform, Option.map_some]
  refine ⟨_, rfl, ?_⟩
  split
  case isFalse => exact ⟨hafter, honRead.trans hread⟩
  case isTrue hempty =>
    refine ⟨⟨?_, after.m_in.reset_valid⟩, honRead.trans hread⟩
    have hbytes := hafter.valid.pending_eq_zero_iff.mp hempty
    have hstream := hafter.stream_eq
    rw [hbytes] at hstream
    exact hstream

/-! ## One event -/

theorem readv_of_le {buffer : Buffer} {data : List UInt8}
    (hfits : data.length ≤ buffer.writable) : Sock.readv buffer data = data :=
  List.take_of_length_le (Nat.le_add_right_of_le hfits)

/-- A receive that fits, with whatever the socket has. -/
theorem bufferedRecv_of_le {buffer : Buffer} (hvalid : buffer.Valid)
    {recv : RecvResult} (hfits : RecvResult.length recv ≤ buffer.writable) :
    ∃ after got, Sock.bufferedRecv buffer recv = some (after, got) ∧
      after.Valid ∧
      after.pendingBytes = buffer.pendingBytes ++ RecvResult.bytes buffer recv := by
  cases recv with
  | received data =>
      obtain ⟨after, hrecv, hafter, hbytes⟩ := recvBytes_of_le hvalid hfits
      refine ⟨after, data.length, ?_, hafter, ?_⟩
      · rw [Sock.bufferedRecv, readv_of_le hfits, hrecv, Option.map_some]
      · rw [hbytes, RecvResult.bytes, readv_of_le hfits]
  | failed errno =>
      exact ⟨buffer, _, rfl, hvalid, (List.append_nil _).symm⟩

/-- A receive that fits is handled and keeps the stream delivered. -/
theorem Delivered.read (hlink : link.Delivered) (hread : link.onRead = true)
    {event : ReadEvent}
    (hfits : RecvResult.length event.recv ≤ link.m_in.writable) :
    ∃ next, link.read event = some next ∧ next.Delivered ∧
      next.onRead = true := by
  obtain ⟨m_in, got, hrecv, hvalid, hbytes⟩ :=
    bufferedRecv_of_le hlink.valid hfits
  obtain ⟨m_state, saved_errno, hstate⟩ := StreamLink.afterRecv_eq
    { link with
      m_in
      received := link.received ++ RecvResult.bytes link.m_in event.recv }
    (RecvResult.errno event.recv) got
  have hstored : Delivered { link with
      m_in, m_state, saved_errno
      received := link.received ++ RecvResult.bytes link.m_in event.recv } := by
    refine ⟨?_, hvalid⟩
    rw [hbytes, ← List.append_assoc, hlink.stream_eq]
  rw [StreamLink.read, processRead, hrecv, Option.bind_some]
  simp only [hstate]
  split
  · exact hstored.invoke hread event.advances
  · exact ⟨_, rfl, hstored, hread⟩

/-- A receive that spills is undefined behaviour. -/
theorem bufferedRecv_of_lt {buffer : Buffer} (hvalid : buffer.Valid)
    {data : List UInt8} (hspill : buffer.writable < data.length) :
    Sock.bufferedRecv buffer (.received data) = none := by
  have hextension : Sock.extension = 4096 := rfl
  have hlength : (Sock.readv buffer data).length =
      min (buffer.writable + Sock.extension) data.length :=
    List.length_take
  have hlong : buffer.writable < (Sock.readv buffer data).length := by
    omega
  have hbound : (Sock.readv buffer data).length ≤
      buffer.writable + Sock.extension := by
    omega
  rw [Sock.bufferedRecv, recvBytes_of_lt hvalid hlong hbound, Option.map_none]

theorem processRead_eq_none (hvalid : link.m_in.Valid) {data : List UInt8}
    {actions : List Action} (hspill : link.m_in.writable < data.length) :
    link.processRead (.received data) actions = none := by
  rw [processRead, bufferedRecv_of_lt hvalid hspill, Option.bind_none]

theorem Delivered.read_eq_none (hlink : link.Delivered) {event : ReadEvent}
    (hspill : link.m_in.writable < RecvResult.length event.recv) :
    link.read event = none := by
  obtain ⟨recv, advances⟩ := event
  cases recv with
  | failed errno => exact absurd hspill (Nat.not_lt_zero _)
  | received data => exact processRead_eq_none hlink.valid hspill

/-! ## Runs -/

/-- From a delivered state with a read callback, a run delivers the stream
exactly if no event of it spills. -/
theorem Delivered.delivers_iff (hlink : link.Delivered)
    (hread : link.onRead = true) (events : List ReadEvent) :
    link.Delivers events ↔ link.NoSpill events := by
  induction events generalizing link with
  | nil => exact iff_of_true hlink trivial
  | cons event events ih =>
      rw [Delivers, NoSpill, and_iff_right hlink]
      rcases Nat.lt_or_ge link.m_in.writable (RecvResult.length event.recv) with
        hspill | hfits
      · rw [hlink.read_eq_none hspill]
        apply iff_of_false
        · rintro ⟨next, heq, -⟩
          cases heq
        · rintro ⟨hfits, -⟩
          omega
      · obtain ⟨next, heq, hnext, hcallback⟩ := hlink.read hread hfits
        rw [heq, and_iff_right hfits]
        constructor
        · rintro ⟨after, ⟨⟩, hdelivers⟩ other ⟨⟩
          exact (ih hnext hcallback).mp hdelivers
        · intro hspill
          exact ⟨next, rfl, (ih hnext hcallback).mpr (hspill next rfl)⟩

theorem new_delivered (handler : Watcher) :
    (new handler).setReadCallback.Delivered where
  stream_eq := rfl
  valid := Buffer.new_valid 2048

/-- A new link with a read callback delivers the inbound stream over a run of
read events exactly if no event receives more than the rest of its input buffer
holds. -/
theorem new_delivers_iff_noSpill (handler : Watcher)
    (events : List ReadEvent) :
    (new handler).setReadCallback.Delivers events ↔
      (new handler).setReadCallback.NoSpill events :=
  (new_delivered handler).delivers_iff rfl events

/-- A receive of one byte more than the new buffer holds. -/
theorem not_new_delivers : ¬ ∀ (handler : Watcher) (events : List ReadEvent),
    (new handler).setReadCallback.Delivers events := by
  intro hdelivers
  let link := (new ⟨0, ⟨false, false⟩, false⟩).setReadCallback
  let event : ReadEvent := ⟨.received (List.replicate 2049 0), []⟩
  obtain ⟨-, next, hread, -⟩ := hdelivers ⟨0, ⟨false, false⟩, false⟩ [event]
  have hlength : RecvResult.length event.recv = 2049 := List.length_replicate
  have hspill : link.m_in.writable < RecvResult.length event.recv := by
    have hwritable : link.m_in.writable = 2048 :=
      (Buffer.new_valid 2048).writable_eq
    omega
  have hnone : link.read event = none :=
    (new_delivered _).read_eq_none hspill
  rw [hnone] at hread
  cases hread

end Sensor.StreamLink
