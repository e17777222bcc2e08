import Sensor.Core.TransitionSystem
import Sensor.Reactor.LinkFrame

/-!
# What the watcher of a link waits for

The mask of a watcher is computed by `prepareEvents` only, when the link is
started and at the end of an event.  It never holds `EV_READ`, because no state
is `OK` and `WRITE_ERROR` at once; it goes stale when a client changes the
link between two events; and its descriptor is whatever the uninitialised
watcher held.
-/

namespace Sensor.WatchedLink

open StreamLink TransitionSystem

/-- The two overloads of `init`. -/
inductive Opening where
  | sock (sock : ℤ)
  | handler (handler : Watcher)

def initBy (link : StreamLink) : Opening → StreamLink
  | .sock sock => link.init sock
  | .handler handler => link.initHandler handler

/-- A call of a client between two events, or an event. -/
inductive Label where
  | act (action : Action)
  | event (event : Event)

/-- The first `start` starts the link, and the loop hands events to an active
watcher of a started link. -/
def step (link : StreamLink) : Label → Option StreamLink
  | .act .start => if link.m_reactor then none else some link.start
  | .act action => link.perform action
  | .event event =>
      if link.m_reactor && link.m_handler.active then link.onEvent event
      else none

/-- A link with any callbacks that was initialised and not started yet. -/
def IsInitial (link : StreamLink) : Prop :=
  ∃ handler onRead onWriteCompleted onDispose opening,
    link = initBy { StreamLink.new handler with
      onRead, onWriteCompleted, onDispose } opening

def system : TransitionSystem StreamLink Label :=
  .ofStep IsInitial step

/-! ## What the watcher promises -/

/-- The state is `OK` or `WRITE_ERROR`. -/
def isLive (link : StreamLink) : Bool :=
  link.m_state = .ok || link.m_state = .writeError

/-- The watcher waits on the socket of the link, for reading exactly when the
link receives and for writing exactly when it has bytes to send. -/
structure Armed (link : StreamLink) : Prop where
  active : link.m_handler.active = true
  fd : link.m_handler.fd = link.m_sock
  read : link.m_handler.events.read = true ↔
    link.isReceiving = true ∧ isLive link = true
  write : link.m_handler.events.write = true ↔
    link.m_out.pending ≠ 0 ∧ link.m_state = .ok

/-- A started link that is not disposed of is armed. -/
def StaysArmed (link : StreamLink) : Prop :=
  link.m_reactor = true → link.disposed = 0 → Armed link

/-! ## The steps that keep the promise -/

/-- The link is started with its descriptor in the watcher and not receiving; a
client between two events does not change what an `OK` link waits for; and no
event ends with a link at work that receives. -/
def allowed (link : StreamLink) : Label → Bool
  | .act .start =>
      link.m_handler.fd = link.m_sock && link.m_state = .ok &&
        !link.isReceiving
  | .act (.setReceiving val) =>
      !link.m_reactor || link.m_state ≠ .ok || !val
  | .act .makeDisconnect =>
      !link.m_reactor || link.m_state ≠ .ok || !link.isSending
  | .act (.write data) =>
      !link.m_reactor || link.m_state ≠ .ok || data.isEmpty || link.isSending
  | .act (.advance _) => true
  | .event event =>
      match link.process event with
      | none => true
      | some after => !(after.isReceiving && isLive after)

/-- The invariant of the allowed steps: an armed link does not wait for
reading. -/
structure Invariant (link : StreamLink) : Prop where
  out_valid : link.m_out.Valid
  armed : StaysArmed link
  not_read : link.m_reactor = true → link.disposed = 0 →
    link.m_handler.events.read = false

variable {link next : StreamLink}

theorem Invariant.initial (hinit : IsInitial link) : Invariant link := by
  obtain ⟨handler, onRead, onWriteCompleted, onDispose, opening, rfl⟩ := hinit
  cases opening with
  | sock sock =>
      exact ⟨Buffer.new_valid 2048, (fun hreactor => nomatch hreactor),
        (fun hreactor => nomatch hreactor)⟩
  | handler other =>
      exact ⟨Buffer.new_valid 2048, (fun hreactor => nomatch hreactor),
        (fun hreactor => nomatch hreactor)⟩

/-- The mask never holds `EV_READ`. -/
theorem events_read (link : StreamLink) : link.events.read = false := by
  cases hstate : link.m_state <;> simp [StreamLink.events, hstate]

theorem events_write (link : StreamLink) :
    link.events.write = true ↔ link.m_out.pending ≠ 0 ∧ link.m_state = .ok := by
  simp [StreamLink.events, isSending]

/-- A link at work that just got its mask is armed if it does not receive. -/
theorem Invariant.of_prepared (link : StreamLink) (hvalid : link.m_out.Valid)
    (hactive : link.disposed = 0 → link.m_handler.active = true)
    (hfd : link.disposed = 0 → link.m_handler.fd = link.m_sock)
    (hreceive : ¬ (link.isReceiving = true ∧ isLive link = true)) :
    Invariant { link with
      m_handler := { link.m_handler with events := link.events } } where
  out_valid := hvalid
  armed := fun _ hdisposed => {
    active := hactive hdisposed
    fd := hfd hdisposed
    read := iff_of_false (by simp [events_read]) hreceive
    write := events_write link }
  not_read := fun _ _ => events_read link

theorem Invariant.start (hinv : Invariant link)
    (hallowed : allowed link (.act .start)) : Invariant link.start := by
  obtain ⟨⟨hfd, hstate⟩, hreceive⟩ :
      (link.m_handler.fd = link.m_sock ∧ link.m_state = .ok) ∧
        link.isReceiving = false := by
    simpa [allowed] using hallowed
  let started : StreamLink := { link with
    m_reactor := true
    m_handler := { link.m_handler with active := true } }
  have hprepared : Invariant { started with
      m_handler := { started.m_handler with events := started.events } } := by
    apply Invariant.of_prepared started hinv.out_valid (fun _ => rfl)
      (fun _ => hfd)
    rintro ⟨htrue, -⟩
    have hfalse : started.isReceiving = false := hreceive
    rw [hfalse] at htrue
    cases htrue
  rw [start_of_live (.inl hstate)]
  exact hprepared

/-- A client changes the link between two events. -/
theorem Invariant.change (hinv : Invariant link)
    (hvalid : next.m_out.Valid) (hreactor : next.m_reactor = link.m_reactor)
    (hdisposed : next.disposed = link.disposed)
    (hhandler : next.m_handler = link.m_handler)
    (hsock : next.m_sock = link.m_sock)
    (hread : link.m_reactor = true → next.isReceiving = true →
      isLive next = true → link.isReceiving = true ∧ isLive link = true)
    (hwrite : link.m_reactor = true →
      (next.m_out.pending ≠ 0 ∧ next.m_state = .ok ↔
        link.m_out.pending ≠ 0 ∧ link.m_state = .ok)) :
    Invariant next where
  out_valid := hvalid
  armed := by
    intro hstarted hlive
    rw [hreactor] at hstarted
    rw [hdisposed] at hlive
    have harmed := hinv.armed hstarted hlive
    have hnone := hinv.not_read hstarted hlive
    refine ⟨?_, ?_, ?_, ?_⟩
    · rw [hhandler]
      exact harmed.active
    · rw [hhandler, hsock]
      exact harmed.fd
    · rw [hhandler]
      apply iff_of_false (by simp [hnone])
      rintro ⟨hreceive, hstate⟩
      have hevents := harmed.read.mpr (hread hstarted hreceive hstate)
      rw [hnone] at hevents
      cases hevents
    · rw [hhandler, hwrite hstarted]
      exact harmed.write
  not_read := by
    rw [hreactor, hdisposed, hhandler]
    exact hinv.not_read

theorem Invariant.write (hinv : Invariant link) {data : List UInt8}
    (hallowed : allowed link (.act (.write data)))
    (hwrite : link.write data = some next) : Invariant next := by
  obtain ⟨m_out, happend, rfl⟩ := Option.map_eq_some_iff.mp hwrite
  obtain ⟨after, hafter, hvalid, hbytes⟩ := hinv.out_valid.append data
  obtain rfl : m_out = after := by
    rw [happend] at hafter
    exact Option.some.inj hafter
  have hpending : m_out.pending = link.m_out.pending + data.length := by
    rw [← hvalid.length_pendingBytes, ← hinv.out_valid.length_pendingBytes,
      hbytes, List.length_append]
  refine hinv.change hvalid rfl rfl rfl rfl ?_ ?_
  · exact fun _ hreceive hstate => ⟨hreceive, hstate⟩
  · intro hstarted
    simp only [allowed, isSending, hstarted, Bool.not_true, Bool.false_or,
      Bool.or_eq_true, decide_eq_true_eq, List.isEmpty_iff] at hallowed
    rcases hallowed with (hstate | rfl) | hsending
    · simp [hstate]
    · simp [hpending]
    · simp [hpending, hsending]

theorem Invariant.setReceiving (hinv : Invariant link) {val : Bool}
    (hallowed : allowed link (.act (.setReceiving val))) :
    Invariant (link.setReceiving val) := by
  rw [StreamLink.setReceiving]
  split
  case isFalse => exact hinv
  case isTrue hstate =>
    refine hinv.change hinv.out_valid rfl rfl rfl rfl ?_ ?_
    · intro hstarted hreceive _
      have hval : val = false := by
        simpa [allowed, hstarted, hstate] using hallowed
      rw [isReceiving, hval] at hreceive
      cases hreceive
    · exact fun _ => Iff.rfl

theorem Invariant.makeDisconnect (hinv : Invariant link)
    (hallowed : allowed link (.act .makeDisconnect)) :
    Invariant link.makeDisconnect := by
  rw [StreamLink.makeDisconnect]
  split
  case isFalse => exact hinv
  case isTrue hstate =>
    refine hinv.change hinv.out_valid rfl rfl rfl rfl ?_ ?_
    · intro _ _ hlive
      cases hlive
    · intro hstarted
      have hidle : link.m_out.pending = 0 := by
        simpa [allowed, hstarted, hstate, isSending] using hallowed
      simp [hidle]

theorem Invariant.act (hinv : Invariant link) {action : Action}
    (hallowed : allowed link (.act action))
    (hstep : step link (.act action) = some next) : Invariant next := by
  cases action with
  | advance l =>
      cases hstep
      exact hinv.change hinv.out_valid rfl rfl rfl rfl
        (fun _ hreceive hstate => ⟨hreceive, hstate⟩) (fun _ => Iff.rfl)
  | write data => exact hinv.write hallowed hstep
  | setReceiving val =>
      cases hstep
      exact hinv.setReceiving hallowed
  | makeDisconnect =>
      cases hstep
      exact hinv.makeDisconnect hallowed
  | start =>
      simp only [step] at hstep
      split at hstep
      · cases hstep
      · cases hstep
        exact hinv.start hallowed

theorem Invariant.event (hinv : Invariant link) {event : Event}
    (hallowed : allowed link (.event event))
    (hstep : step link (.event event) = some next) : Invariant next := by
  simp only [step] at hstep
  split at hstep
  case isFalse => cases hstep
  case isTrue hready =>
  obtain ⟨hstarted, hactive⟩ : link.m_reactor = true ∧
      link.m_handler.active = true := by
    simpa using hready
  obtain ⟨after, hprocess, hsettle⟩ := Option.bind_eq_some_iff.mp hstep
  have hkeeps := Keeps.process hprocess
  have hvalid := hkeeps.out_valid hinv.out_valid
  rcases after.live_or_ended with hlive | hended
  · rw [settle_of_live hlive] at hsettle
    cases hsettle
    apply Invariant.of_prepared after hvalid
    · exact fun _ => hkeeps.active hactive
    · intro hdisposed
      rw [hkeeps.disposed] at hdisposed
      rw [hkeeps.fd, hkeeps.sock]
      exact (hinv.armed hstarted hdisposed).fd
    · rintro ⟨hreceive, hstate⟩
      simp [allowed, hprocess, hreceive, hstate] at hallowed
  · rw [settle_of_ended hended] at hsettle
    have hend := Keeps.invoke hsettle
    have hdisposed : next.disposed ≠ 0 := by
      rw [hend.disposed]
      exact Nat.succ_ne_zero _
    exact ⟨hend.out_valid hvalid, fun _ hzero => absurd hzero hdisposed,
      fun _ hzero => absurd hzero hdisposed⟩

/-! ## The main result -/

/-- A run of allowed steps keeps the watcher armed for what the link wants. -/
theorem staysArmed_of_allowed
    (hreach : (system.restrict
      fun link label => allowed link label = true).Reachable link) :
    StaysArmed link := by
  have hinv : Invariant link := by
    apply hreach.invariant
    · exact fun _ => Invariant.initial
    · rintro start label final hinv ⟨hallowed, hstep⟩
      cases label with
      | act action => exact hinv.act hallowed hstep
      | event event => exact hinv.event hallowed hstep
  exact hinv.armed

/-- A link with a byte to send is started, sends it, and waits for nothing. -/
def sendOne : List Label :=
  [.act (.write [1]), .act .start,
    .event { revents := 2, recv := .failed .eagain, send := .sent 1,
             readActions := [], writeActions := [], disposeActions := [] }]

theorem staysArmed_of_allowed_sendOne : ∃ link : StreamLink,
    (system.restrict
      fun link label => allowed link label = true).Reachable link ∧
      link.accepted = [1] ∧ link.m_reactor = true ∧ StaysArmed link := by
  let start : StreamLink := { StreamLink.new ⟨5, ⟨false, false⟩, false⟩ with
    onRead := true, onWriteCompleted := true, m_sock := 5 }
  let link := (execute (guardStep allowed step) start sendOne).get rfl
  have hexecute : execute (guardStep allowed step) start sendOne = some link :=
    rfl
  have hinit : IsInitial start :=
    ⟨⟨5, ⟨false, false⟩, false⟩, true, true, false, .sock 5, rfl⟩
  have hreach := reachable_restrict_of_execute hinit hexecute
  exact ⟨link, hreach, rfl, rfl, staysArmed_of_allowed hreach⟩

/-- A link that receives is started with the right descriptor, and its watcher
does not wait for reading. -/
theorem not_staysArmed : ¬ ∀ link : StreamLink,
    system.Reachable link → StaysArmed link := by
  intro hstays
  let start : StreamLink := { StreamLink.new ⟨5, ⟨false, false⟩, false⟩ with
    m_sock := 5 }
  let link := (execute step start
    [.act (.setReceiving true), .act .start]).get rfl
  have hexecute : execute step start
      [.act (.setReceiving true), .act .start] = some link := rfl
  have hreach : system.Reachable link :=
    reachable_of_execute
      ⟨⟨5, ⟨false, false⟩, false⟩, false, false, false, .sock 5, rfl⟩ hexecute
  have harmed := hstays link hreach rfl rfl
  have hread : link.m_handler.events.read = true :=
    harmed.read.mpr ⟨rfl, rfl⟩
  cases hread

end Sensor.WatchedLink
