import Sensor.Reactor.LinkReports
import Sensor.Service.ChannelOwnership

/-!
# The callbacks of the links of the service

The service sets the read callback of its links and no other.  So a link must
neither come to its end, where it invokes the dispose callback, nor drain its
output or fail to send nothing, where it invokes the write callback.
-/

namespace Sensor.ServiceCallbacks

open StreamLink Logged WatchedLink LinkReports
open SensorService (onDataRead onConnectionAccepted onConnectionEstablished
  process_read process_read_end process_read_failed)

variable {Address : Type*} [DecidableEq Address]

/-- A link one of the two functions returned, initialised by the acceptor or the
connector and started. -/
def IsServiceLink (Address : Type*) [DecidableEq Address] (link : StreamLink) :
    Prop :=
  ∃ (state next : SensorService.State Address) (address : Address)
    (handler : Watcher) (created : StreamLink) (opening : Opening),
    (onConnectionAccepted state address handler = (next, true) ∨
      onConnectionEstablished state address handler = (next, true)) ∧
      next.activeChannels address = some created ∧
        link = (initBy created opening).start

/-- A write of a client, or an event of the loop. -/
inductive Label where
  | write (data : List UInt8)
  | event (event : Event)

/-- The link after a write or an event, in which the read callback of the
service runs, with the log. -/
def tracedStep (link : StreamLink) : Label → Logged Entry StreamLink
  | .write data => Traced.perform link (.write data)
  | .event event => Traced.onEvent link { event with readActions := onDataRead }

/-! ## What a link promises -/

/-- A callback that is invoked is set. -/
def IsSet (entry : Entry) : Prop :=
  ∀ callback isSet, entry = .callback callback isSet → isSet = true

/-- The run is defined to its end, and every callback that is invoked in it is
set: a receive that writes past its buffer counts as failing, since what is
invoked behind it is undefined. -/
def InvokesSet (link : StreamLink) (labels : List Label) : Prop :=
  (run tracedStep link labels).Succeeds IsSet fun _ => True

/-! ## When it keeps the promise -/

/-- The send leaves something to send, or does nothing. -/
def LeavesOutput (link : StreamLink) : SendResult → Prop
  | .sent count => link.m_out.pending = 0 ∨ count < link.m_out.pending
  | .failed _ => link.m_out.pending ≠ 0

/-- The receive brings bytes that fit or fails for now, and where the event goes
on to send, the send leaves something to send. -/
def EventMeets (link : StreamLink) (event : Event) : Prop :=
  match event.recv with
  | .received data => data ≠ [] ∧ data.length ≤ link.m_in.writable ∧
      (link.m_state = .ok → LeavesOutput link event.send)
  | .failed errno => errno.transient = true ∧
      (link.m_state = .ok → LeavesOutput link event.send)

def Meets (link : StreamLink) : Label → Prop
  | .write _ => True
  | .event event => EventMeets link event

/-- Every event of the run meets the condition. -/
def MeetsAll (link : StreamLink) : List Label → Prop
  | [] => True
  | label :: labels => Meets link label ∧
      ∀ next, (tracedStep link label).value = some next → MeetsAll next labels

/-! ## The links of the service -/

/-- A link of the service that has not come to its end. -/
structure Serving (link : StreamLink) : Prop where
  live : link.m_state = .ok ∨ link.m_state = .writeError
  onRead : link.onRead = true
  onWriteCompleted : link.onWriteCompleted = false
  onDispose : link.onDispose = false
  in_valid : link.m_in.Valid
  out_valid : link.m_out.Valid

variable {link next : StreamLink}

theorem serving_of_isServiceLink (hlink : IsServiceLink Address link) :
    Serving link := by
  obtain ⟨state, next, address, handler, created, opening, hcreated, hfound,
    rfl⟩ := hlink
  have hnew : created = (StreamLink.new handler).setReadCallback.setReceiving
      true := by
    rcases hcreated with hcreated | hcreated
    · simp only [onConnectionAccepted] at hcreated
      split at hcreated
      · cases hcreated
      · cases hcreated
        simpa using hfound.symm
    · simp only [onConnectionEstablished] at hcreated
      split at hcreated
      · cases hcreated
      · cases hcreated
        simpa using hfound.symm
  subst hnew
  cases opening with
  | sock sock =>
      rw [initBy, start_of_live (.inl rfl)]
      exact ⟨.inl rfl, rfl, rfl, rfl, Buffer.new_valid 2048,
        Buffer.new_valid 2048⟩
  | handler other =>
      rw [initBy, start_of_live (.inl rfl)]
      exact ⟨.inl rfl, rfl, rfl, rfl, Buffer.new_valid 2048,
        Buffer.new_valid 2048⟩

theorem Serving.write (hserving : Serving link) {data : List UInt8}
    (hwrite : link.perform (.write data) = some next) : Serving next := by
  have hvalid := (Keeps.perform hwrite).out_valid hserving.out_valid
  obtain ⟨m_out, -, rfl⟩ := Option.map_eq_some_iff.mp hwrite
  exact { hserving with out_valid := hvalid }

/-! ## The parts of an event -/

/-- A send of the link invokes its write callback exactly if it leaves nothing
to send. -/
theorem completes_iff (hvalid : link.m_out.Valid) {result : SendResult} :
    Completes link result ↔ ¬ LeavesOutput link result := by
  cases result with
  | failed errno =>
      have hfailed : failedSize > 0 := by decide
      simp [Completes, LeavesOutput, Sock.bufferedSend, hfailed]
  | sent count =>
      have hle := Nat.min_le_right count link.m_out.pending
      have hprocessed := hvalid.processed hle
      have hrest : (link.m_out.processed (min count link.m_out.pending)).pending
          = link.m_out.pending - min count link.m_out.pending := by
        rw [hprocessed.pending_eq, hvalid.pending_eq]
        simp only [Buffer.processed]
        omega
      simp only [Completes, LeavesOutput, Sock.bufferedSend]
      split
      · rw [hrest]
        omega
      · omega

theorem set_processRead (hread : link.onRead = true) {result : RecvResult}
    {actions : List Action} {middle : StreamLink}
    (hvalue : link.processRead result actions = some middle) :
    (Traced.processRead link result actions).Succeeds IsSet (· = middle) := by
  refine ⟨fun entry hentry => ?_, middle, ?_, rfl⟩
  · rintro callback isSet rfl
    rcases (log_processRead _ _ _).1 _ hentry with heq | ⟨_, heq⟩ | heq
    · cases heq
    · cases heq
    · cases heq
      exact hread
  · rw [Traced.value_processRead]
    exact hvalue

theorem set_processWrite {result : SendResult}
    (hincomplete : ¬ Completes link result) {actions : List Action}
    {after : StreamLink}
    (hvalue : link.processWrite result actions = some after) :
    (Traced.processWrite link result actions).Succeeds IsSet (· = after) := by
  refine ⟨fun entry hentry => ?_, after, ?_, rfl⟩
  · rintro callback isSet rfl
    rcases (log_processWrite _ _ _).1 _ hentry with heq | ⟨_, heq⟩ | heq
    · cases heq
    · cases heq
    · cases heq
      exact absurd (callback_mem_processWrite_iff.mp ⟨_, hentry⟩) hincomplete
  · rw [Traced.value_processWrite]
    exact hvalue

theorem live_afterCall
    (hlive : link.m_state = .ok ∨ link.m_state = .writeError)
    (errno : Option Errno) :
    (link.afterCall .writeError errno).m_state = .ok ∨
      (link.afterCall .writeError errno).m_state = .writeError := by
  cases errno with
  | none => exact hlive
  | some errno =>
      rw [afterCall]
      split
      · exact hlive
      · exact .inr rfl

/-- A send that leaves something to send keeps the link at work. -/
theorem Serving.processWrite (hserving : Serving link) {result : SendResult}
    (hincomplete : ¬ Completes link result) (actions : List Action) :
    ∃ next, link.processWrite result actions = some next ∧ Serving next := by
  let sent := { link with
    m_out := (Sock.bufferedSend link.m_out result).1
    accepted := link.accepted ++ SendResult.bytes link.m_out result }
  have hlive : (sent.afterCall .writeError (SendResult.errno result)).m_state =
      .ok ∨ (sent.afterCall .writeError (SendResult.errno result)).m_state =
        .writeError := by
    have hsent : sent.m_state = .ok ∨ sent.m_state = .writeError :=
      hserving.live
    exact live_afterCall hsent _
  obtain ⟨m_state, saved_errno, hstate⟩ :=
    sent.afterCall_eq .writeError (SendResult.errno result)
  rw [hstate] at hlive
  have hwrite : link.processWrite result actions =
      some { sent with m_state, saved_errno } := by
    rw [StreamLink.processWrite]
    simp only [sent] at hstate ⊢
    rw [Completes] at hincomplete
    rw [hstate, if_neg hincomplete]
  have hvalid := (Keeps.processWrite hwrite).out_valid hserving.out_valid
  exact ⟨_, hwrite, hlive, hserving.onRead, hserving.onWriteCompleted,
    hserving.onDispose, hserving.in_valid, hvalid⟩

/-- A link at work comes to the end of an event without a callback. -/
theorem Serving.settle (hserving : Serving link) (event : Event) :
    (Traced.settle link event).Succeeds IsSet Serving := by
  rw [Traced.settle, prepareEvents_of_live hserving.live, succeeds_bind,
    succeeds_tell]
  refine ⟨by rintro callback isSet ⟨⟩, _, rfl, ?_⟩
  change (Logged.pure _).Succeeds IsSet Serving
  rw [succeeds_pure]
  exact ⟨hserving.live, hserving.onRead, hserving.onWriteCompleted,
    hserving.onDispose, hserving.in_valid, hserving.out_valid⟩

theorem leavesOutput_congr (hout : next.m_out = link.m_out)
    (result : SendResult) :
    LeavesOutput next result ↔ LeavesOutput link result := by
  cases result <;> simp [LeavesOutput, hout]

/-- What a receive makes of a link: it ends it, or it writes past the buffer, or
the link serves on with the same output. -/
theorem Serving.processRead_cases (hserving : Serving link) (event : Event) :
    (∃ middle, link.processRead event.recv onDataRead = some middle ∧
      (middle.m_state = .disconnect ∨ middle.m_state = .readError) ∧
        middle.onDispose = false ∧ ¬ EventMeets link event) ∨
    (link.processRead event.recv onDataRead = none ∧
      ¬ EventMeets link event) ∨
    ∃ middle, link.processRead event.recv onDataRead = some middle ∧
      Serving middle ∧ (EventMeets link event ↔
        (middle.m_state = .ok → LeavesOutput middle event.send)) := by
  cases hresult : event.recv with
  | received data =>
      simp only [EventMeets, hresult]
      by_cases hne : data = []
      · subst hne
        obtain ⟨middle, hread, hstate, hdispose⟩ :=
          process_read_end hserving.in_valid
        exact .inl ⟨middle, hread, .inl hstate,
          hdispose.trans hserving.onDispose, fun hmeets => hmeets.1 rfl⟩
      rcases Nat.lt_or_ge link.m_in.writable data.length with hspill | hfits
      · exact .inr (.inl ⟨processRead_eq_none hserving.in_valid hspill,
          fun hmeets => absurd hmeets.2.1 (Nat.not_le.mpr hspill)⟩)
      · obtain ⟨m_in, hread, hvalid⟩ :=
          process_read hserving.in_valid hserving.onRead hne hfits
        refine .inr (.inr ⟨_, hread, { hserving with in_valid := hvalid }, ?_⟩)
        rw [leavesOutput_congr (by rfl)]
        exact ⟨fun hmeets => hmeets.2.2,
          fun hleaves => ⟨hne, hfits, hleaves⟩⟩
  | failed errno =>
      simp only [EventMeets, hresult]
      have hread := process_read_failed hserving.onRead errno
      cases htransient : errno.transient with
      | true =>
          rw [afterCall, if_pos htransient] at hread
          exact .inr (.inr ⟨link, hread, hserving,
            fun hmeets => hmeets.2, fun hleaves => ⟨rfl, hleaves⟩⟩)
      | false =>
          simp only [afterCall, htransient, Bool.false_eq_true,
            if_false] at hread
          exact .inl ⟨_, hread, .inr rfl, hserving.onDispose,
            fun hmeets => Bool.false_ne_true hmeets.1⟩

/-! ## One step -/

/-- An event that meets the condition invokes only callbacks that are set. -/
theorem Serving.succeeds_event (hserving : Serving link) {event : Event}
    (hmeets : EventMeets link event) :
    (Traced.onEvent link { event with readActions := onDataRead }).Succeeds
      IsSet Serving := by
  have hread : evRead ≠ 0 := by decide
  rw [Traced.onEvent, Traced.process, if_pos (.inr hread), succeeds_bind,
    succeeds_bind]
  rcases hserving.processRead_cases event with
    ⟨_, _, _, _, hnot⟩ | ⟨-, hnot⟩ | ⟨middle, hmiddle, hserves, hiff⟩
  · exact absurd hmeets hnot
  · exact absurd hmeets hnot
  · refine (set_processRead hserving.onRead hmiddle).mono fun other hother => ?_
    subst hother
    split
    case isTrue hsends =>
      have hincomplete : ¬ Completes other event.send := by
        rw [completes_iff hserves.out_valid, not_not]
        exact hiff.mp hmeets hsends.2
      obtain ⟨after, hafter, hlast⟩ :=
        hserves.processWrite hincomplete event.writeActions
      refine (set_processWrite hincomplete hafter).mono fun last heq => ?_
      subst heq
      exact hlast.settle _
    case isFalse =>
      rw [succeeds_pure]
      exact hserves.settle _

/-- A link that comes to its end without a dispose callback. -/
theorem onDispose_mem_settle (event : Event)
    (hended : link.m_state = .disconnect ∨ link.m_state = .readError)
    (hdispose : link.onDispose = false) :
    .callback .onDispose false ∈ (Traced.settle link event).log := by
  have hvalue : (Traced.destroy link.stop).value = some link.stop.destroy :=
    Traced.value_destroy
  have hkept : link.stop.destroy.onDispose = false := by
    rw [destroy_eq]
    exact hdispose
  rw [Traced.settle, prepareEvents_of_ended hended, log_tell_bind]
  simp only [Bool.false_eq_true, if_false]
  rw [log_bind_of_some hvalue, hkept]
  exact List.mem_cons_of_mem _ (List.mem_append_right _
    (callback_mem_invoke _ _ _ _))

/-- An event that does not meet the condition invokes a callback that is not
set, or is undefined. -/
theorem Serving.not_succeeds (hserving : Serving link) {event : Event}
    (hnot : ¬ EventMeets link event) :
    ¬ (Traced.onEvent link { event with readActions := onDataRead }).Succeeds
      IsSet fun _ => True := by
  rintro ⟨hset, after, hvalue, -⟩
  have hunset : ∀ callback, .callback callback false ∉
      (Traced.onEvent link { event with readActions := onDataRead }).log :=
    fun callback hmem => absurd (hset _ hmem callback false rfl) (by decide)
  rcases hserving.processRead_cases event with
    ⟨middle, hread, hended, hdispose, -⟩ | ⟨hnone, -⟩ |
    ⟨middle, hread, hserves, hiff⟩
  · have hnotOk : middle.m_state ≠ .ok := by
      rcases hended with hstate | hstate <;> simp [hstate]
    have hprocess : link.process { event with readActions := onDataRead } =
        some middle := by
      rw [process_eq, hread, Option.bind_some, if_neg hnotOk]
    refine hunset .onDispose ?_
    rw [Traced.onEvent, log_bind_of_some (Traced.value_process.trans hprocess)]
    exact List.mem_append_right _ (onDispose_mem_settle _ hended hdispose)
  · have hspilt : link.process { event with readActions := onDataRead } =
        none := by
      rw [process_eq, hnone, Option.bind_none]
    rw [Traced.value_onEvent, StreamLink.onEvent, hspilt,
      Option.bind_none] at hvalue
    cases hvalue
  · rw [hiff, Classical.not_imp, ← completes_iff hserves.out_valid,
      ← callback_mem_processWrite_iff] at hnot
    obtain ⟨hstate, isSet, hmem⟩ := hnot
    obtain rfl : isSet = false := by
      rcases (log_processWrite _ _ _).1 _ hmem with heq | ⟨_, heq⟩ | heq
      · cases heq
      · cases heq
      · cases heq
        exact hserves.onWriteCompleted
    exact hunset .onWriteCompleted (onWriteCompleted_mem_iff.mpr
      ⟨middle, ⟨hread, hstate⟩, hmem⟩)

/-- A step that meets the condition invokes only callbacks that are set, and
leaves the link serving. -/
theorem Serving.succeeds_step (hserving : Serving link) {label : Label}
    (hmeets : Meets link label) :
    (tracedStep link label).Succeeds IsSet Serving := by
  cases label with
  | write data =>
      obtain ⟨m_out, happend, -⟩ := hserving.out_valid.append data
      have hwrite : link.perform (.write data) = some { link with
          m_out, produced := link.produced ++ data } :=
        Option.map_eq_some_iff.mpr ⟨m_out, happend, rfl⟩
      rw [tracedStep, Traced.perform, hwrite]
      change (Traced.showing _).Succeeds IsSet Serving
      rw [Traced.showing, succeeds_tell]
      exact ⟨by rintro callback isSet ⟨⟩, _, rfl, hserving.write hwrite⟩
  | event event => exact hserving.succeeds_event hmeets

theorem Serving.meets_of_succeeds (hserving : Serving link) {label : Label}
    (hsucceeds : (tracedStep link label).Succeeds IsSet fun _ => True) :
    Meets link label := by
  cases label with
  | write data => trivial
  | event event =>
      by_contra hnot
      exact hserving.not_succeeds hnot hsucceeds

/-! ## Runs -/

theorem Serving.invokesSet_iff_meetsAll (hserving : Serving link)
    (labels : List Label) : InvokesSet link labels ↔ MeetsAll link labels := by
  induction labels generalizing link with
  | nil => exact iff_of_true (succeeds_pure.mpr trivial) trivial
  | cons label labels ih =>
      rw [InvokesSet, run, succeeds_bind, MeetsAll]
      constructor
      · intro hset
        have hmeets := hserving.meets_of_succeeds
          (hset.mono fun _ _ => trivial)
        refine ⟨hmeets, fun next hnext => ?_⟩
        exact (ih ((hserving.succeeds_step hmeets).post hnext)).mp
          (hset.post hnext)
      · rintro ⟨hmeets, hrest⟩
        obtain ⟨hset, next, hnext, hserves⟩ := hserving.succeeds_step hmeets
        exact ⟨hset, next, hnext, (ih hserves).mpr (hrest next hnext)⟩

/-- A run of a link of the service is defined and invokes only callbacks that are
set if and only if every event of it meets the condition. -/
theorem invokesSet_iff (hlink : IsServiceLink Address link)
    (labels : List Label) :
    InvokesSet link labels ↔ MeetsAll link labels :=
  (serving_of_isServiceLink hlink).invokesSet_iff_meetsAll labels

/-- The link of the first connection of the service. -/
def firstLink : StreamLink :=
  let created := StreamLink.new ⟨0, ⟨false, false⟩, false⟩
  (initBy (created.setReadCallback.setReceiving true) (.sock 5)).start

theorem isServiceLink_firstLink : IsServiceLink ℕ firstLink :=
  ⟨.initial, _, 0, ⟨0, ⟨false, false⟩, false⟩, _, .sock 5, .inl rfl, rfl, rfl⟩

/-- An event in which the socket has these results. -/
def eventOf (recv : RecvResult) (send : SendResult) : Event where
  revents := 3
  recv := recv
  send := send
  readActions := []
  writeActions := []
  disposeActions := []

theorem invokesSet_iff_partialSend : InvokesSet firstLink
    [.event (eventOf (.received [1]) (.sent 1)), .write [2, 3],
      .event (eventOf (.failed .eagain) (.sent 1))] := by
  refine (invokesSet_iff isServiceLink_firstLink _).mpr ?_
  refine ⟨⟨List.cons_ne_nil _ _, by decide, fun _ => .inl (by decide)⟩, ?_⟩
  rintro received ⟨⟩
  refine ⟨trivial, ?_⟩
  rintro written ⟨⟩
  refine ⟨⟨rfl, fun _ => .inr (by decide)⟩, ?_⟩
  rintro sent -
  trivial

/-- The peer of an accepted connection closes it. -/
theorem not_invokesSet : ¬ ∀ (link : StreamLink) (labels : List Label),
    IsServiceLink ℕ link → InvokesSet link labels := by
  intro hset
  have hserving := serving_of_isServiceLink isServiceLink_firstLink
  have hmeets := (hserving.invokesSet_iff_meetsAll _).mp
    (hset firstLink [.event (eventOf (.received []) (.sent 0))]
      isServiceLink_firstLink)
  exact hmeets.1.1 rfl

end Sensor.ServiceCallbacks
