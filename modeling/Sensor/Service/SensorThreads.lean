import Mathlib
import Sensor.Queue.MessageQueueDelivery
import Sensor.Service.ServiceStart

/-!
# The threads of a sensor

`sensor_main` opens a pcap handle, constructs its service, shares the handle
with a thread that captures and a thread that serves the queue of the poluter,
serves its own event loop, stops and joins both threads, and closes the handle.
The handle is safe under any queue whose thread is joined in this order; with
the queue the poluter has, the join never returns.  An exception of the
constructor leaves `sensor_main` before there is a thread, and the handle open.
-/

namespace Sensor.SensorThreads

open TransitionSystem

/-- The functions of libpcap that get the handle; `dispatchReturn` is the end of
`pcap_dispatch`, which uses the handle up to it. -/
inductive PcapCall where
  | setPromisc
  | setBufferSize
  | setDirection
  | activate
  | geterr
  | close
  | dispatch
  | dispatchReturn
  | breakloop
  | inject
  deriving DecidableEq

/-- A call of libpcap and whether its handle is not null. -/
abbrev Entry := PcapCall × Bool

/-- Every call gets a handle, and none gets one that was closed. -/
structure Safe (log : List Entry) : Prop where
  handle : ∀ entry ∈ log, entry.2 = true
  closed_last : ∀ first second handle, log = first ++ (.close, handle) :: second →
    second = []

/-! ## The handle -/

/-- What libpcap answers to `RawPacketHandler::init`; the answer of
`pcap_setdirection` decides about a warning only. -/
structure InitAnswers where
  create : Bool
  setPromisc : ℤ
  setBufferSize : ℤ
  activate : ℤ

/-- The variable `success` of `init`. -/
def InitAnswers.succeeds (answers : InitAnswers) : Bool :=
  answers.setPromisc = 0 && answers.setBufferSize = 0 && answers.activate = 0

/-- The calls of `init`, each on what `pcap_create` returned: a failure skips
the calls behind it except `pcap_setdirection`, and the error is asked for
behind `pcap_close`. -/
def InitAnswers.log (answers : InitAnswers) : List Entry :=
  [(.setPromisc, answers.create)] ++
    (if answers.setPromisc = 0 then [(.setBufferSize, answers.create)]
      else []) ++
    [(.setDirection, answers.create)] ++
    (if answers.setPromisc = 0 ∧ answers.setBufferSize = 0 then
      [(.activate, answers.create)] else []) ++
    (if answers.succeeds then []
      else [(.close, answers.create), (.geterr, answers.create)])

/-- `m_handler` behind `init`: whether it is not null. -/
def InitAnswers.handler (answers : InitAnswers) : Bool :=
  answers.succeeds && answers.create

/-! ## The threads -/

/-- What a step of the poluter's queue is: one of a thread that sends to it, the
call of `nullmsg` in `sensor_main`, a step inside that call, or a step of the
thread that serves the queue. -/
inductive Role where
  | client
  | nullmsg
  | insideNullmsg
  | loop
  deriving DecidableEq

/-- A message queue and the thread that serves it: when that thread runs a
command, and when it has returned from `run`. -/
structure Worker (Queue Step : Type*) where
  Init : Queue → Prop
  step : Queue → Step → Option Queue
  role : Step → Option Role
  inNullmsg : Queue → Bool
  executing : Queue → Bool
  returned : Queue → Bool
  executing_returned : ∀ queue, executing queue = true →
    returned queue = false
  returned_step : ∀ queue label next, returned queue = true →
    step queue label = some next → returned next = true

/-- Where `sensor_main` is: at a call, in the constructor of `SensorService`,
inside `nullmsg`, or left by an exception. -/
inductive MainPc where
  | init
  | construct (start : ServiceStart.Start)
  | createCapture
  | createPoluter
  | service
  | nullmsg
  | inNullmsg
  | stopCapture
  | joinPoluter
  | joinCapture
  | close
  | returned
  | thrown
  deriving DecidableEq

/-- Where the thread of `TrafficCapture::start` is: not created, in front of
`pcap_dispatch`, inside it, at `queue->nullmsg()`, behind it. -/
inductive CapturePc where
  | absent
  | start
  | dispatch
  | nullmsg
  | finished
  deriving DecidableEq

/-- The three threads, `m_handler` and its copies, the queue of the poluter, and
the calls of libpcap. -/
structure State (Queue : Type*) where
  main : MainPc
  capture : CapturePc
  poluter : Bool
  handler : Bool
  queue : Queue
  log : List Entry

/-- A step of `sensor_main`, one while the service is constructed, one of the
capturing thread, a packet that a command of the poluter injects, or a step of
the queue. -/
inductive Label (Step : Type*) where
  | main
  | start (label : ServiceStart.Label)
  | capture (error : Bool)
  | inject (report : Bool)
  | queue (step : Step)

variable {Queue Step : Type*}

def State.call (state : State Queue) (call : PcapCall) : State Queue :=
  { state with log := state.log ++ [(call, state.handler)] }

/-- A call whose failure is reported with `pcap_geterr`. -/
def State.callReport (state : State Queue) (call : PcapCall) (report : Bool) :
    State Queue :=
  if report then (state.call call).call .geterr else state.call call

/-- The next step of `sensor_main` outside the constructor; the threads are always
created. -/
def mainStep (worker : Worker Queue Step) (answers : InitAnswers)
    (state : State Queue) : Option (State Queue) :=
  match state.main with
  | .init =>
      some { state with
        handler := answers.handler
        log := state.log ++ answers.log
        main := .construct .create }
  | .construct start =>
      if start = .constructed then some { state with main := .createCapture }
      else none
  | .createCapture =>
      some { state with capture := .start, main := .createPoluter }
  | .createPoluter => some { state with poluter := true, main := .service }
  -- the event loop may return at any time
  | .service => some { state with main := .nullmsg }
  | .nullmsg => none
  | .inNullmsg =>
      if worker.inNullmsg state.queue then none
      else some { state with main := .stopCapture }
  | .stopCapture =>
      some { state.call .breakloop with main := .joinPoluter }
  | .joinPoluter =>
      if worker.returned state.queue then
        some { state with main := .joinCapture }
      else none
  | .joinCapture =>
      if state.capture = .finished then some { state with main := .close }
      else none
  | .close =>
      if state.handler then some { state.call .close with main := .returned }
      else some { state with main := .returned }
  | .returned => none
  | .thrown => none

/-- A step while the service is constructed.  The destructor of the handler does
not close the handle. -/
def startStep (state : State Queue) (label : ServiceStart.Label) :
    Option (State Queue) :=
  match state.main with
  | .construct start =>
      (ServiceStart.step start label).map fun start =>
        { state with main :=
            if start = .thrown then .thrown else .construct start }
  | _ => none

/-- The next step of `TrafficCapture::start`; `pcap_dispatch` may return at any
time. -/
def captureStep (state : State Queue) (error : Bool) : Option (State Queue) :=
  match state.capture with
  | .absent => none
  | .start => some { state.call .dispatch with capture := .dispatch }
  | .dispatch =>
      some { state.callReport .dispatchReturn error with capture := .nullmsg }
  | .nullmsg => some { state with capture := .finished }
  | .finished => none

/-- A command of the poluter injects a packet. -/
def injectStep (worker : Worker Queue Step) (state : State Queue)
    (report : Bool) : Option (State Queue) :=
  if state.poluter && worker.executing state.queue then
    some (state.callReport .inject report)
  else none

/-- A step of the queue, by whoever takes it. -/
def queueStep (worker : Worker Queue Step) (state : State Queue)
    (label : Step) : Option (State Queue) :=
  match worker.role label with
  | none => none
  | some .client =>
      (worker.step state.queue label).map fun queue => { state with queue }
  | some .nullmsg =>
      if state.main = .nullmsg then
        (worker.step state.queue label).map fun queue =>
          { state with queue, main := .inNullmsg }
      else none
  | some .insideNullmsg =>
      if state.main = .inNullmsg then
        (worker.step state.queue label).map fun queue => { state with queue }
      else none
  | some .loop =>
      if state.poluter then
        (worker.step state.queue label).map fun queue => { state with queue }
      else none

def step (worker : Worker Queue Step) (answers : InitAnswers)
    (state : State Queue) : Label Step → Option (State Queue)
  | .main => mainStep worker answers state
  | .start label => startStep state label
  | .capture error => captureStep state error
  | .inject report => injectStep worker state report
  | .queue label => queueStep worker state label

/-- `sensor_main` is called. -/
def State.initial (queue : Queue) : State Queue where
  main := .init
  capture := .absent
  poluter := false
  handler := false
  queue := queue
  log := []

def system (worker : Worker Queue Step) (answers : InitAnswers) :
    TransitionSystem (State Queue) (Label Step) :=
  .ofStep (fun state => ∃ queue, worker.Init queue ∧ state = .initial queue)
    (step worker answers)

/-! ## Logs -/

theorem safe_of_open {log : List Entry}
    (hhandle : ∀ entry ∈ log, entry.2 = true)
    (hopen : ∀ entry ∈ log, entry.1 ≠ .close) : Safe log where
  handle := hhandle
  closed_last := by
    intro first second handle heq
    refine absurd rfl (hopen (.close, handle) ?_)
    rw [heq]
    exact List.mem_append_right _ List.mem_cons_self

/-- The handle may be used, and closed, while it was not closed. -/
theorem Safe.concat {log : List Entry} (hsafe : Safe log)
    (hopen : ∀ entry ∈ log, entry.1 ≠ .close) (call : PcapCall) :
    Safe (log ++ [(call, true)]) where
  handle := by
    intro entry hentry
    rcases List.mem_append.mp hentry with hold | hnew
    · exact hsafe.handle entry hold
    · rw [List.mem_singleton.mp hnew]
  closed_last := by
    intro first second handle heq
    rcases List.eq_nil_or_concat second with hnil | ⟨init, last, hlast⟩
    · exact hnil
    · rw [hlast, List.concat_eq_append, ← List.cons_append,
        ← List.append_assoc] at heq
      obtain ⟨hlog, -⟩ := List.append_inj' heq rfl
      refine absurd rfl (hopen (.close, handle) ?_)
      rw [hlog]
      exact List.mem_append_right _ List.mem_cons_self

theorem Safe.of_append {first second : List Entry}
    (hsafe : Safe (first ++ second)) : Safe first where
  handle := fun entry hentry =>
    hsafe.handle entry (List.mem_append_left _ hentry)
  closed_last := by
    intro before behind handle heq
    have hnil := hsafe.closed_last before (behind ++ second) handle
      (by rw [heq, List.append_assoc, List.cons_append])
    exact (List.append_eq_nil_iff.mp hnil).1

theorem InitAnswers.handler_eq_true_iff {answers : InitAnswers} :
    answers.handler = true ↔ answers.create = true ∧
      answers.setPromisc = 0 ∧ answers.setBufferSize = 0 ∧
        answers.activate = 0 := by
  rw [handler, succeeds, Bool.and_eq_true, Bool.and_eq_true, Bool.and_eq_true,
    decide_eq_true_iff, decide_eq_true_iff, decide_eq_true_iff]
  tauto

/-- The calls of an `init` that keeps its handle. -/
theorem InitAnswers.log_of_handler {answers : InitAnswers}
    (hhandler : answers.handler = true) :
    answers.log = [(.setPromisc, true), (.setBufferSize, true),
      (.setDirection, true), (.activate, true)] := by
  obtain ⟨hcreate, hpromisc, hbuffer, hactivate⟩ :=
    handler_eq_true_iff.mp hhandler
  simp [log, succeeds, hcreate, hpromisc, hbuffer, hactivate]

/-- `init` calls libpcap with a null handle, or behind `pcap_close`, exactly if
it does not keep a handle. -/
theorem InitAnswers.safe_log_iff {answers : InitAnswers} :
    Safe answers.log ↔ answers.handler = true := by
  constructor
  · intro hsafe
    have hcreate : answers.create = true := by
      apply hsafe.handle (.setPromisc, answers.create)
      simp [log]
    rw [handler, hcreate, Bool.and_true]
    by_contra hfailed
    rw [Bool.not_eq_true] at hfailed
    have hlast := hsafe.closed_last _ [(.geterr, answers.create)]
      answers.create (by rw [log, hfailed]; rfl)
    cases hlast
  · intro hhandler
    rw [log_of_handler hhandler]
    apply safe_of_open
    · simp
    · simp

/-! ## One step -/

variable {worker : Worker Queue Step} {answers : InitAnswers}
variable {state next : State Queue}

/-- What a step of `sensor_main` does, by the place it is taken at. -/
inductive MainStep (worker : Worker Queue Step) (answers : InitAnswers)
    (state : State Queue) : State Queue → Prop
  | init (hmain : state.main = .init) : MainStep worker answers state
      { state with
        handler := answers.handler
        log := state.log ++ answers.log
        main := .construct .create }
  | construct (hmain : state.main = .construct .constructed) :
      MainStep worker answers state { state with main := .createCapture }
  | createCapture (hmain : state.main = .createCapture) :
      MainStep worker answers state
        { state with capture := .start, main := .createPoluter }
  | createPoluter (hmain : state.main = .createPoluter) :
      MainStep worker answers state
        { state with poluter := true, main := .service }
  | service (hmain : state.main = .service) :
      MainStep worker answers state { state with main := .nullmsg }
  | inNullmsg (hmain : state.main = .inNullmsg) :
      MainStep worker answers state { state with main := .stopCapture }
  | stopCapture (hmain : state.main = .stopCapture) :
      MainStep worker answers state
        { state.call .breakloop with main := .joinPoluter }
  | joinPoluter (hmain : state.main = .joinPoluter)
      (hreturned : worker.returned state.queue = true) :
      MainStep worker answers state { state with main := .joinCapture }
  | joinCapture (hmain : state.main = .joinCapture)
      (hfinished : state.capture = .finished) :
      MainStep worker answers state { state with main := .close }
  | close (hmain : state.main = .close) (hhandler : state.handler = true) :
      MainStep worker answers state
        { state.call .close with main := .returned }
  | noHandle (hmain : state.main = .close) (hhandler : state.handler = false) :
      MainStep worker answers state { state with main := .returned }

theorem mainStep_cases (hstep : mainStep worker answers state = some next) :
    MainStep worker answers state next := by
  rw [mainStep] at hstep
  split at hstep
  case h_1 hmain =>
    cases hstep
    exact .init hmain
  case h_2 start hmain =>
    obtain ⟨rfl, ⟨⟩⟩ := Option.ite_none_right_eq_some.mp hstep
    exact .construct hmain
  case h_3 hmain =>
    cases hstep
    exact .createCapture hmain
  case h_4 hmain =>
    cases hstep
    exact .createPoluter hmain
  case h_5 hmain =>
    cases hstep
    exact .service hmain
  case h_6 => cases hstep
  case h_7 hmain =>
    split at hstep <;> cases hstep
    exact .inNullmsg hmain
  case h_8 hmain =>
    cases hstep
    exact .stopCapture hmain
  case h_9 hmain =>
    obtain ⟨hreturned, ⟨⟩⟩ := Option.ite_none_right_eq_some.mp hstep
    exact .joinPoluter hmain hreturned
  case h_10 hmain =>
    obtain ⟨hfinished, ⟨⟩⟩ := Option.ite_none_right_eq_some.mp hstep
    exact .joinCapture hmain hfinished
  case h_11 hmain =>
    split at hstep <;> cases hstep
    case isTrue hhandler => exact .close hmain hhandler
    case isFalse hhandler =>
      exact .noHandle hmain (Bool.eq_false_of_not_eq_true hhandler)
  case h_12 | h_13 => cases hstep

theorem captureStep_cases {error : Bool}
    (hstep : captureStep state error = some next) :
    (state.capture = .start ∧
        next = { state.call .dispatch with capture := .dispatch }) ∨
      (state.capture = .dispatch ∧ next =
        { state.callReport .dispatchReturn error with capture := .nullmsg }) ∨
      (state.capture = .nullmsg ∧
        next = { state with capture := .finished }) := by
  rw [captureStep] at hstep
  split at hstep
  case h_1 | h_5 => cases hstep
  case h_2 hcapture =>
    cases hstep
    exact .inl ⟨hcapture, rfl⟩
  case h_3 hcapture =>
    cases hstep
    exact .inr (.inl ⟨hcapture, rfl⟩)
  case h_4 hcapture =>
    cases hstep
    exact .inr (.inr ⟨hcapture, rfl⟩)

/-- What a step of the constructor does. -/
theorem startStep_cases {label : ServiceStart.Label}
    (hstep : startStep state label = some next) :
    ∃ before after, state.main = .construct before ∧
      ServiceStart.step before label = some after ∧
      next = { state with main :=
        if after = .thrown then .thrown else .construct after } := by
  rw [startStep] at hstep
  split at hstep
  case h_1 before hmain =>
    obtain ⟨after, hafter, rfl⟩ := Option.map_eq_some_iff.mp hstep
    exact ⟨before, after, hmain, hafter, rfl⟩
  case h_2 => cases hstep

theorem queueStep_cases {label : Step}
    (hstep : queueStep worker state label = some next) :
    worker.step state.queue label = some next.queue ∧
      (next = { state with queue := next.queue } ∨
        state.main = .nullmsg ∧
          next = { state with queue := next.queue, main := .inNullmsg }) := by
  rw [queueStep] at hstep
  split at hstep
  case h_1 => cases hstep
  case h_2 =>
    obtain ⟨queue, hqueue, rfl⟩ := Option.map_eq_some_iff.mp hstep
    exact ⟨hqueue, .inl rfl⟩
  case h_3 =>
    obtain ⟨hmain, hmap⟩ := Option.ite_none_right_eq_some.mp hstep
    obtain ⟨queue, hqueue, rfl⟩ := Option.map_eq_some_iff.mp hmap
    exact ⟨hqueue, .inr ⟨hmain, rfl⟩⟩
  case h_4 =>
    obtain ⟨-, hmap⟩ := Option.ite_none_right_eq_some.mp hstep
    obtain ⟨queue, hqueue, rfl⟩ := Option.map_eq_some_iff.mp hmap
    exact ⟨hqueue, .inl rfl⟩
  case h_5 =>
    obtain ⟨-, hmap⟩ := Option.ite_none_right_eq_some.mp hstep
    obtain ⟨queue, hqueue, rfl⟩ := Option.map_eq_some_iff.mp hmap
    exact ⟨hqueue, .inl rfl⟩

/-- The places behind the join of the poluter. -/
def MainPc.poluterJoined : MainPc → Bool
  | .joinCapture => true
  | .close => true
  | .returned => true
  | _ => false

/-- The places behind the join of the capturing thread. -/
def MainPc.captureJoined : MainPc → Bool
  | .close => true
  | .returned => true
  | _ => false

/-- The places in front of `pthread_create`, and outside by an exception. -/
def MainPc.threadless : MainPc → Bool
  | .init => true
  | .construct _ => true
  | .createCapture => true
  | .thrown => true
  | _ => false

/-- No thread was created. -/
def Alone (state : State Queue) : Prop :=
  state.capture = .absent ∧ state.poluter = false

/-- The calls begin with those of `init`, and there is no thread before one is
created. -/
structure Began (answers : InitAnswers) (state : State Queue) : Prop where
  starting : state.main = .init → state.log = []
  started : state.main ≠ .init → answers.log <+: state.log
  alone : state.main.threadless = true → Alone state

/-- The handle is closed only in the end, and a thread that was joined has
ended. -/
structure Invariant (worker : Worker Queue Step) (state : State Queue) :
    Prop where
  safe : Safe state.log
  closed : state.main ≠ .returned → ∀ entry ∈ state.log, entry.1 ≠ .close
  handler : state.main ≠ .init → state.handler = true
  poluter_joined : state.main.poluterJoined = true →
    worker.returned state.queue = true
  capture_joined : state.main.captureJoined = true → state.capture = .finished

theorem Invariant.initial (queue : Queue) :
    Invariant worker (State.initial queue) where
  safe := safe_of_open (by simp [State.initial]) (by simp [State.initial])
  closed := by simp [State.initial]
  handler := by simp [State.initial]
  poluter_joined := by simp [State.initial, MainPc.poluterJoined]
  capture_joined := by simp [State.initial, MainPc.captureJoined]

/-- Calls of libpcap that a thread makes while `sensor_main` stays. -/
def Grows (state next : State Queue) : Prop :=
  next.main = state.main ∧ next.queue = state.queue ∧ state.log <+: next.log

theorem Grows.call (call : PcapCall) : Grows state (state.call call) :=
  ⟨rfl, rfl, List.prefix_append _ _⟩

theorem Grows.trans {middle : State Queue} (hfirst : Grows state middle)
    (hsecond : Grows middle next) : Grows state next :=
  ⟨hsecond.1.trans hfirst.1, hsecond.2.1.trans hfirst.2.1,
    hfirst.2.2.trans hsecond.2.2⟩

theorem Grows.callReport (call : PcapCall) (report : Bool) :
    Grows state (state.callReport call report) := by
  rw [State.callReport]
  split
  · exact (Grows.call call).trans (Grows.call .geterr)
  · exact Grows.call call

/-- A step of `sensor_main` leads behind `init`, and behind the join of the
poluter only when its thread has ended. -/
theorem mainStep_grows (hstep : mainStep worker answers state = some next) :
    next.main ≠ .init ∧ next.queue = state.queue ∧ state.log <+: next.log ∧
      (next.main.poluterJoined = true → state.main.poluterJoined = true ∨
        worker.returned state.queue = true) := by
  cases mainStep_cases hstep with
  | init _ =>
      exact ⟨by simp, rfl, List.prefix_append _ _,
        by simp [MainPc.poluterJoined]⟩
  | construct _ | createCapture _ | createPoluter _ | service _ | inNullmsg _ =>
      exact ⟨by simp, rfl, List.prefix_rfl, by simp [MainPc.poluterJoined]⟩
  | stopCapture _ =>
      exact ⟨by simp, rfl, (Grows.call .breakloop).2.2,
        by simp [MainPc.poluterJoined]⟩
  | joinPoluter _ hreturned =>
      exact ⟨by simp, rfl, List.prefix_rfl, fun _ => .inr hreturned⟩
  | joinCapture hmain _ | noHandle hmain _ =>
      exact ⟨by simp, rfl, List.prefix_rfl, fun _ => .inl (by rw [hmain]; rfl)⟩
  | close hmain _ =>
      exact ⟨by simp, rfl, (Grows.call .close).2.2,
        fun _ => .inl (by rw [hmain]; rfl)⟩

/-- A place without threads is reached from one, and without creating any. -/
theorem mainStep_threadless (hstep : mainStep worker answers state = some next)
    (hnext : next.main.threadless = true) :
    state.main.threadless = true ∧ next.capture = state.capture ∧
      next.poluter = state.poluter := by
  cases mainStep_cases hstep with
  | init hmain | construct hmain => exact ⟨by rw [hmain]; rfl, rfl, rfl⟩
  | _ => cases hnext

theorem captureStep_grows {error : Bool}
    (hstep : captureStep state error = some next) : Grows state next := by
  rcases captureStep_cases hstep with ⟨-, rfl⟩ | ⟨-, rfl⟩ | ⟨-, rfl⟩
  · exact ⟨rfl, rfl, (Grows.call .dispatch).2.2⟩
  · have hgrows : Grows state (state.callReport .dispatchReturn error) :=
      Grows.callReport .dispatchReturn error
    exact ⟨hgrows.1, hgrows.2.1, hgrows.2.2⟩
  · exact ⟨rfl, rfl, List.prefix_rfl⟩

theorem InitAnswers.log_ne_inject (answers : InitAnswers) :
    ∀ entry ∈ answers.log, entry.1 ≠ .inject := by
  rw [log]
  split_ifs <;> simp

theorem State.call_ne_inject {call : PcapCall} (hcall : call ≠ .inject)
    (hnone : ∀ entry ∈ state.log, entry.1 ≠ .inject) :
    ∀ entry ∈ (state.call call).log, entry.1 ≠ .inject := by
  intro entry hentry
  rcases List.mem_append.mp hentry with hold | hnew
  · exact hnone entry hold
  · rw [List.mem_singleton.mp hnew]
    exact hcall

/-- Only the poluter injects. -/
theorem mainStep_log (hstep : mainStep worker answers state = some next)
    (hnone : ∀ entry ∈ state.log, entry.1 ≠ .inject) :
    ∀ entry ∈ next.log, entry.1 ≠ .inject := by
  cases mainStep_cases hstep with
  | init _ =>
      intro entry hentry
      rcases List.mem_append.mp hentry with hold | hnew
      · exact hnone entry hold
      · exact answers.log_ne_inject entry hnew
  | stopCapture _ | close _ _ => exact State.call_ne_inject (by simp) hnone
  | _ => exact hnone

theorem captureStep_log {error : Bool}
    (hstep : captureStep state error = some next)
    (hnone : ∀ entry ∈ state.log, entry.1 ≠ .inject) :
    ∀ entry ∈ next.log, entry.1 ≠ .inject := by
  rcases captureStep_cases hstep with ⟨-, rfl⟩ | ⟨-, rfl⟩ | ⟨-, rfl⟩
  · exact State.call_ne_inject (by simp) hnone
  · rw [State.callReport]
    split
    · exact State.call_ne_inject (by simp)
        (State.call_ne_inject (by simp) hnone)
    · exact State.call_ne_inject (by simp) hnone
  · exact hnone

theorem injectStep_grows {report : Bool}
    (hstep : injectStep worker state report = some next) :
    Grows state next := by
  obtain ⟨-, hnext⟩ := Option.ite_none_right_eq_some.mp hstep
  cases hnext
  exact Grows.callReport .inject report

/-- A call of libpcap while `sensor_main` holds the handle. -/
theorem Invariant.call (hinv : Invariant worker state)
    (hinit : state.main ≠ .init) (hreturned : state.main ≠ .returned)
    {call : PcapCall} (hcall : call ≠ .close) :
    Invariant worker (state.call call) := by
  have hopen := hinv.closed hreturned
  refine { hinv with safe := ?_, closed := ?_ }
  · rw [State.call, hinv.handler hinit]
    exact hinv.safe.concat hopen call
  · intro _ entry hentry
    rcases List.mem_append.mp hentry with hold | hnew
    · exact hopen entry hold
    · rw [List.mem_singleton.mp hnew]
      exact hcall

theorem Invariant.callReport (hinv : Invariant worker state)
    (hinit : state.main ≠ .init) (hreturned : state.main ≠ .returned)
    {call : PcapCall} (hcall : call ≠ .close) (report : Bool) :
    Invariant worker (state.callReport call report) := by
  have hfirst := hinv.call hinit hreturned hcall
  rw [State.callReport]
  split
  · exact hfirst.call hinit hreturned (by simp)
  · exact hfirst

/-- `sensor_main` moves on, while the threads stay where they are. -/
theorem Invariant.move (hinv : Invariant worker state) {main : MainPc}
    (hstart : state.main ≠ .init) (hend : state.main ≠ .returned)
    (hpoluter : main.poluterJoined = true →
      worker.returned state.queue = true)
    (hcapture : main.captureJoined = true → state.capture = .finished) :
    Invariant worker { state with main } where
  safe := hinv.safe
  closed := fun _ => hinv.closed hend
  handler := fun _ => hinv.handler hstart
  poluter_joined := hpoluter
  capture_joined := hcapture

theorem Invariant.main (hinv : Invariant worker state)
    (hhandler : answers.handler = true)
    (hbegan : Began answers state)
    (hstep : mainStep worker answers state = some next) :
    Invariant worker next := by
  cases mainStep_cases hstep with
  | init hmain =>
      have heq : state.log ++ answers.log = answers.log := by
        rw [hbegan.starting hmain, List.nil_append]
      constructor
      · dsimp only
        rw [heq]
        exact InitAnswers.safe_log_iff.mpr hhandler
      · dsimp only
        rw [heq, InitAnswers.log_of_handler hhandler]
        simp
      · exact fun _ => hhandler
      · simp [MainPc.poluterJoined]
      · simp [MainPc.captureJoined]
  | construct hmain | service hmain | inNullmsg hmain =>
      exact hinv.move (by simp [hmain]) (by simp [hmain])
        (by simp [MainPc.poluterJoined]) (by simp [MainPc.captureJoined])
  | createCapture hmain =>
      have hmoved : Invariant worker { state with main := .createPoluter } :=
        hinv.move (by simp [hmain]) (by simp [hmain])
          (by simp [MainPc.poluterJoined]) (by simp [MainPc.captureJoined])
      exact { hmoved with capture_joined := by simp [MainPc.captureJoined] }
  | createPoluter hmain =>
      have hmoved : Invariant worker { state with main := .service } :=
        hinv.move (by simp [hmain]) (by simp [hmain])
          (by simp [MainPc.poluterJoined]) (by simp [MainPc.captureJoined])
      exact { hmoved with }
  | stopCapture hmain =>
      have hcalled : Invariant worker (state.call .breakloop) :=
        hinv.call (by simp [hmain]) (by simp [hmain]) (by simp)
      exact hcalled.move (by simp [State.call, hmain])
        (by simp [State.call, hmain])
        (by simp [MainPc.poluterJoined]) (by simp [MainPc.captureJoined])
  | joinPoluter hmain hreturned =>
      exact hinv.move (by simp [hmain]) (by simp [hmain])
        (fun _ => hreturned) (by simp [MainPc.captureJoined])
  | joinCapture hmain hfinished =>
      exact hinv.move (by simp [hmain]) (by simp [hmain])
        (fun _ => hinv.poluter_joined (by rw [hmain]; rfl))
        (fun _ => hfinished)
  | close hmain hset =>
      constructor
      · rw [State.call, hset]
        exact hinv.safe.concat (hinv.closed (by simp [hmain])) .close
      · exact fun hne => absurd rfl hne
      · exact fun _ => hset
      · exact fun _ => hinv.poluter_joined (by rw [hmain]; rfl)
      · exact fun _ => hinv.capture_joined (by rw [hmain]; rfl)
  | noHandle hmain hunset =>
      have hset := hinv.handler (by simp [hmain])
      rw [hunset] at hset
      cases hset

theorem Invariant.start (hinv : Invariant worker state)
    {label : ServiceStart.Label} (hstep : startStep state label = some next) :
    Invariant worker next := by
  obtain ⟨before, after, hmain, -, rfl⟩ := startStep_cases hstep
  split
  · exact hinv.move (by simp [hmain]) (by simp [hmain])
      (by simp [MainPc.poluterJoined]) (by simp [MainPc.captureJoined])
  · exact hinv.move (by simp [hmain]) (by simp [hmain])
      (by simp [MainPc.poluterJoined]) (by simp [MainPc.captureJoined])

theorem Invariant.captured (hinv : Invariant worker state)
    (hbegan : Began answers state) {error : Bool}
    (hstep : captureStep state error = some next) : Invariant worker next := by
  have hinit : state.capture ≠ .absent → state.main ≠ .init :=
    fun hne hmain => hne (hbegan.alone (by rw [hmain]; rfl)).1
  have hunjoined : state.capture ≠ .finished →
      state.main.captureJoined = false := by
    intro hne
    rw [← Bool.not_eq_true]
    exact fun hjoined => hne (hinv.capture_joined hjoined)
  have hmoved : ∀ {middle : State Queue} (capture : CapturePc),
      Invariant worker middle → middle.main = state.main →
        state.capture ≠ .finished →
          Invariant worker { middle with capture } := by
    intro middle capture hmiddle hmain hfinished
    exact { hmiddle with
      capture_joined := fun hjoined => by
        dsimp only at hjoined
        rw [hmain, hunjoined hfinished] at hjoined
        cases hjoined }
  have hreturned : state.capture ≠ .finished → state.main ≠ .returned := by
    intro hne hmain
    have hjoined := hunjoined hne
    rw [hmain] at hjoined
    cases hjoined
  rcases captureStep_cases hstep with
    ⟨hcapture, rfl⟩ | ⟨hcapture, rfl⟩ | ⟨hcapture, rfl⟩
  · have habsent : state.capture ≠ .absent := by simp [hcapture]
    have hfinished : state.capture ≠ .finished := by simp [hcapture]
    exact hmoved .dispatch (hinv.call (hinit habsent) (hreturned hfinished)
      (by simp)) rfl hfinished
  · have habsent : state.capture ≠ .absent := by simp [hcapture]
    have hfinished : state.capture ≠ .finished := by simp [hcapture]
    refine hmoved .nullmsg (hinv.callReport (hinit habsent)
      (hreturned hfinished) (by simp) error) ?_ hfinished
    rw [State.callReport]
    split <;> rfl
  · exact hmoved .finished hinv rfl (by simp [hcapture])

theorem Invariant.inject (hinv : Invariant worker state)
    (hbegan : Began answers state) {report : Bool}
    (hstep : injectStep worker state report = some next) :
    Invariant worker next := by
  obtain ⟨henabled, hnext⟩ := Option.ite_none_right_eq_some.mp hstep
  cases hnext
  obtain ⟨hpoluter, hexecuting⟩ := Bool.and_eq_true_iff.mp henabled
  have hinit : state.main ≠ .init := by
    intro hmain
    rw [(hbegan.alone (by rw [hmain]; rfl)).2] at hpoluter
    cases hpoluter
  have hreturned : state.main ≠ .returned := by
    intro hmain
    have hjoined := hinv.poluter_joined (by rw [hmain]; rfl)
    rw [worker.executing_returned _ hexecuting] at hjoined
    cases hjoined
  exact hinv.callReport hinit hreturned (by simp) report

theorem Invariant.queue (hinv : Invariant worker state) {label : Step}
    (hstep : queueStep worker state label = some next) :
    Invariant worker next := by
  obtain ⟨hqueue, hcases⟩ := queueStep_cases hstep
  have hkept : worker.returned state.queue = true →
      worker.returned next.queue = true :=
    fun hreturned => worker.returned_step _ _ _ hreturned hqueue
  have hsame : Invariant worker { state with queue := next.queue } :=
    { hinv with
      poluter_joined := fun hjoined => hkept (hinv.poluter_joined hjoined) }
  rcases hcases with heq | ⟨hmain, heq⟩
  · rw [heq]
    exact hsame
  · rw [heq]
    exact hsame.move (by simp [hmain]) (by simp [hmain])
      (by simp [MainPc.poluterJoined]) (by simp [MainPc.captureJoined])

/-- A thread that takes a step was created. -/
theorem Began.grows (hbegan : Began answers state) (hthread : ¬ Alone state)
    (hgrows : Grows state next) : Began answers next := by
  have hmain : state.main.threadless ≠ true :=
    fun hthreadless => hthread (hbegan.alone hthreadless)
  have hinit : state.main ≠ .init := by
    intro heq
    rw [heq] at hmain
    exact hmain rfl
  refine ⟨?_, ?_, ?_⟩
  · exact fun heq => absurd (hgrows.1.symm.trans heq) hinit
  · exact fun _ => (hbegan.started hinit).trans hgrows.2.2
  · rw [hgrows.1]
    exact fun hthreadless => absurd hthreadless hmain

theorem Began.main (hbegan : Began answers state)
    (hstep : mainStep worker answers state = some next) :
    Began answers next := by
  obtain ⟨hnext, -, hgrown, -⟩ := mainStep_grows hstep
  refine ⟨fun hinit => absurd hinit hnext, fun _ => ?_, ?_⟩
  · by_cases hmain : state.main = .init
    · rw [mainStep, hmain] at hstep
      cases hstep
      rw [hbegan.starting hmain]
      exact List.prefix_rfl
    · exact (hbegan.started hmain).trans hgrown
  · intro hthreadless
    obtain ⟨hbefore, hcapture, hpoluter⟩ :=
      mainStep_threadless hstep hthreadless
    rw [Alone, hcapture, hpoluter]
    exact hbegan.alone hbefore

/-- Only the first step of `sensor_main` leads on from where it starts. -/
theorem Began.step (hbegan : Began answers state) {label : Label Step}
    (hstep : SensorThreads.step worker answers state label = some next) :
    Began answers next := by
  cases label with
  | main => exact hbegan.main hstep
  | start label =>
      obtain ⟨before, after, hmain, -, rfl⟩ := startStep_cases hstep
      have halone : Alone state := hbegan.alone (by rw [hmain]; rfl)
      refine ⟨?_, fun _ => hbegan.started (by simp [hmain]), fun _ => halone⟩
      dsimp only
      split <;> simp
  | capture error =>
      refine hbegan.grows ?_ (captureStep_grows hstep)
      rintro ⟨habsent, -⟩
      change captureStep state error = some next at hstep
      rw [captureStep, habsent] at hstep
      cases hstep
  | inject report =>
      refine hbegan.grows ?_ (injectStep_grows hstep)
      rintro ⟨-, habsent⟩
      change injectStep worker state report = some next at hstep
      rw [injectStep, habsent] at hstep
      cases hstep
  | queue label =>
      obtain ⟨-, heq | ⟨hnull, heq⟩⟩ := queueStep_cases hstep
      · rw [heq]
        exact ⟨hbegan.starting, hbegan.started, hbegan.alone⟩
      · rw [heq]
        exact ⟨by simp, fun _ => hbegan.started (by simp [hnull]),
          by simp [MainPc.threadless]⟩

theorem reachable_began
    (hreach : (system worker answers).Reachable state) :
    Began answers state := by
  apply hreach.invariant
  · rintro start ⟨queue, -, rfl⟩
    exact ⟨fun _ => rfl, fun hne => absurd rfl hne, fun _ => ⟨rfl, rfl⟩⟩
  · exact fun before label after hbegan hstep => hbegan.step hstep

theorem reachable_invariant (hhandler : answers.handler = true)
    (hreach : (system worker answers).Reachable state) :
    Invariant worker state := by
  induction hreach with
  | init hinit =>
      obtain ⟨queue, -, rfl⟩ := hinit
      exact Invariant.initial queue
  | @step before after label hbefore hstep hinv =>
      have hbegan := reachable_began hbefore
      cases label with
      | main => exact hinv.main hhandler hbegan hstep
      | start label => exact hinv.start hstep
      | capture error => exact hinv.captured hbegan hstep
      | inject report => exact hinv.inject hbegan hstep
      | queue label => exact hinv.queue hstep

/-! ## Without another part of the program -/

/-- The service is not behind its start. -/
def MainPc.Unstarted : MainPc → Prop
  | .init => True
  | .construct start => start.Unopened
  | .thrown => True
  | _ => False

theorem MainPc.Unstarted.threadless {main : MainPc} (hmain : main.Unstarted) :
    main.threadless = true := by
  cases main with
  | init => rfl
  | construct start => rfl
  | thrown => rfl
  | _ => exact hmain.elim

theorem MainPc.Unstarted.step {label : Label Step}
    (hstate : state.main.Unstarted) (hother : label ≠ .start .otherOpen)
    (hstep : SensorThreads.step worker answers state label = some next) :
    next.main.Unstarted := by
  cases label with
  | main =>
      cases mainStep_cases hstep with
      | init _ => trivial
      | construct hmain | createCapture hmain | createPoluter hmain
      | service hmain | inNullmsg hmain | stopCapture hmain
      | joinPoluter hmain _ | joinCapture hmain _ | close hmain _
      | noHandle hmain _ =>
          rw [hmain] at hstate
          exact hstate.elim
  | start label =>
      obtain ⟨before, after, hmain, hafter, rfl⟩ := startStep_cases hstep
      rw [hmain] at hstate
      have hunopened : after.Unopened :=
        ServiceStart.Start.Unopened.step hstate (by simpa using hother) hafter
      by_cases hthrown : after = .thrown
      · rw [if_pos hthrown]
        trivial
      · rw [if_neg hthrown]
        exact hunopened
  | capture error =>
      rw [(captureStep_grows hstep).1]
      exact hstate
  | inject report =>
      rw [(injectStep_grows hstep).1]
      exact hstate
  | queue label =>
      obtain ⟨-, heq | ⟨hnull, -⟩⟩ := queueStep_cases hstep
      · rw [heq]
        exact hstate
      · rw [hnull] at hstate
        exact hstate.elim

/-- As long as no other part of the program gets the number of the acceptor's
socket, `sensor_main` does not get to where it creates a thread. -/
theorem threadless_of_run {queue : Queue} {labels : List (Label Step)}
    (hrun : (system worker answers).Run (.initial queue) labels state)
    (hother : .start .otherOpen ∉ labels) : state.main.threadless = true := by
  have hunstarted : state.main.Unstarted := by
    refine hrun.preserves (· ≠ .start .otherOpen) (·.main.Unstarted) ?_ ?_
      trivial
    · exact fun before label after hlabel hbefore hstep =>
        hbefore.step hlabel hstep
    · rintro label hmem rfl
      exact hother hmem
  exact hunstarted.threadless

/-! ## The handle in every interleaving -/

/-- From the first step of `sensor_main` on, whatever the threads do, libpcap is
called on an open handle exactly if `init` succeeded, and the handle is closed
by the last call, behind both threads. -/
theorem handle_safe_iff (hreach : (system worker answers).Reachable state)
    (hmain : state.main ≠ .init) :
    (Safe state.log ↔ answers.create = true ∧ answers.setPromisc = 0 ∧
      answers.setBufferSize = 0 ∧ answers.activate = 0) ∧
    (Safe state.log → (∃ handle, (.close, handle) ∈ state.log) →
      state.main = .returned ∧ state.capture = .finished ∧
        worker.returned state.queue = true) := by
  have hprefix := (reachable_began hreach).started hmain
  have hiff : Safe state.log ↔ answers.handler = true := by
    constructor
    · intro hsafe
      obtain ⟨rest, hrest⟩ := hprefix
      rw [← hrest] at hsafe
      exact InitAnswers.safe_log_iff.mp hsafe.of_append
    · exact fun hhandler => (reachable_invariant hhandler hreach).safe
  refine ⟨hiff.trans InitAnswers.handler_eq_true_iff, ?_⟩
  rintro hsafe ⟨handle, hclose⟩
  have hinv := reachable_invariant (hiff.mp hsafe) hreach
  have hreturned : state.main = .returned := by
    by_contra hne
    exact hinv.closed hne _ hclose rfl
  refine ⟨hreturned, ?_, ?_⟩
  · exact hinv.capture_joined (by rw [hreturned]; rfl)
  · exact hinv.poluter_joined (by rw [hreturned]; rfl)

/-! ## The queue of the poluter -/

section Poluter

variable {Node Client Command : Type*} [DecidableEq Node]
variable [DecidableEq Client]

/-- The roles of the steps of a `MessageQueue`: `sensor_main` is the sender
`none`, and calls nothing but `nullmsg`. -/
def messageQueueRole :
    MessageQueue.Label Node (Option Client) Command → Option Role
  | .call none _ none => some .nullmsg
  | .call none _ (some _) => none
  | .call (some _) _ _ => some .client
  | .send none => some .insideNullmsg
  | .send (some _) => some .client
  | .work => some .loop

/-- `run` returned. -/
def messageQueueReturned
    (queue : MessageQueue.State Node (Option Client) Command) : Bool :=
  match queue.worker with
  | .returned => true
  | _ => false

/-- `receive` has a command at hand. -/
def messageQueueExecuting
    (queue : MessageQueue.State Node (Option Client) Command) : Bool :=
  match queue.worker with
  | .dispatch node => (queue.self node).isSome
  | _ => false

/-- No step of a thread that sends moves the thread that serves. -/
theorem worker_of_step
    {queue after : MessageQueue.State Node (Option Client) Command}
    {label : MessageQueue.Label Node (Option Client) Command}
    (hworker : queue.worker = .returned)
    (hstep : MessageQueue.step queue label = some after) :
    after.worker = .returned := by
  cases label with
  | call sender node command =>
      obtain ⟨-, hnext⟩ := Option.ite_none_right_eq_some.mp hstep
      cases hnext
      exact hworker
  | send sender =>
      obtain ⟨⟨node, pc⟩, -, heq⟩ := Option.map_eq_some_iff.mp hstep
      rw [← heq]
      cases pc with
      | pop pc => exact hworker
      | notify pc =>
          dsimp only
          split
          · exact hworker
          · exact hworker
  | work =>
      change MessageQueue.workerStep queue = some after at hstep
      rw [MessageQueue.workerStep, hworker] at hstep
      cases hstep

/-- The queue the poluter has. -/
def messageQueue (Node Client Command : Type*) [DecidableEq Node]
    [DecidableEq Client] :
    Worker (MessageQueue.State Node (Option Client) Command)
      (MessageQueue.Label Node (Option Client) Command) where
  Init := fun queue => ∃ heap self, queue = .initial heap self
  step := MessageQueue.step
  role := messageQueueRole
  inNullmsg := fun queue => (queue.sender none).isSome
  executing := messageQueueExecuting
  returned := messageQueueReturned
  executing_returned := by
    intro queue hexecuting
    rw [messageQueueExecuting] at hexecuting
    split at hexecuting
    case h_1 node hworker => rw [messageQueueReturned, hworker]
    case h_2 => cases hexecuting
  returned_step := by
    intro queue label next hreturned hstep
    have hworker : queue.worker = .returned := by
      rw [messageQueueReturned] at hreturned
      split at hreturned
      case h_1 hworker => exact hworker
      case h_2 => cases hreturned
    rw [messageQueueReturned, worker_of_step hworker hstep]

/-- Another part of the program gets the number of the acceptor's socket, and
the threads run until `sensor_main` waits for the poluter. -/
def untilJoin : List (Label (MessageQueue.Label ℕ (Option ℕ) ℕ)) :=
  [.main, .start (.create .made), .start .otherOpen, .start (.call true),
    .start (.call true), .start (.call true), .start (.call true), .main,
    .main, .main, .capture false, .queue .work, .main,
    .queue (.call none 7 none), .queue (.send none), .queue (.send none),
    .queue (.send none), .main, .main, .capture true]

/-- An `init` that keeps the handle. -/
def allAnswer : InitAnswers where
  create := true
  setPromisc := 0
  setBufferSize := 0
  activate := 0

theorem handle_safe_iff_untilJoin : ∃ log : List Entry,
    log.length = 8 ∧ Safe log := by
  let queue : MessageQueue.State ℕ (Option ℕ) ℕ :=
    .initial (fun _ => none) fun _ => none
  let state := (execute (step (messageQueue ℕ ℕ ℕ) allAnswer)
    (State.initial queue) untilJoin).get rfl
  have hexecute : execute (step (messageQueue ℕ ℕ ℕ) allAnswer)
      (State.initial queue) untilJoin = some state := rfl
  have hreach : (system (messageQueue ℕ ℕ ℕ) allAnswer).Reachable state :=
    reachable_of_execute ⟨queue, ⟨_, _, rfl⟩, rfl⟩ hexecute
  have hmain : state.main ≠ .init := by
    have hjoin : state.main = .joinPoluter := rfl
    simp [hjoin]
  exact ⟨state.log, rfl, (handle_safe_iff hreach hmain).1.mpr ⟨rfl, rfl, rfl, rfl⟩⟩

variable {state : State (MessageQueue.State Node (Option Client) Command)}

/-- The queue of the poluter runs as it does alone. -/
theorem reachable_messageQueue
    (hreach : (system (messageQueue Node Client Command) answers).Reachable
      state) :
    (MessageQueue.system Node (Option Client) Command).Reachable
      state.queue := by
  apply hreach.project State.queue
  · rintro start ⟨queue, hqueue, rfl⟩
    exact hqueue
  · intro before label after hstep
    cases label with
    | main => exact .inl (mainStep_grows hstep).2.1
    | start label =>
        obtain ⟨-, -, -, -, rfl⟩ := startStep_cases hstep
        exact .inl rfl
    | capture error => exact .inl (captureStep_grows hstep).2.1
    | inject report => exact .inl (injectStep_grows hstep).2.1
    | queue label => exact .inr ⟨label, (queueStep_cases hstep).1⟩

/-- The thread of the poluter neither returns from `run` nor runs a command:
`IntMpscPipe::send` puts nothing into its queue. -/
theorem worker_idle
    {queue : MessageQueue.State Node (Option Client) Command}
    (hreach : (MessageQueue.system Node (Option Client) Command).Reachable
      queue) :
    messageQueueReturned queue = false ∧
      messageQueueExecuting queue = false := by
  obtain ⟨pc, hworker, -⟩ := (MessageQueue.reachable_empty hreach).worker_recv
  rw [messageQueueReturned, messageQueueExecuting, hworker]
  exact ⟨rfl, rfl⟩

/-- `sensor_main` does not get behind the join of the poluter, and no command
injects a packet. -/
theorem poluterJoined_eq_false
    (hreach : (system (messageQueue Node Client Command) answers).Reachable
      state) :
    state.main.poluterJoined = false ∧
      ∀ entry ∈ state.log, entry.1 ≠ .inject := by
  induction hreach with
  | init hinit =>
      obtain ⟨queue, -, rfl⟩ := hinit
      exact ⟨rfl, by simp [State.initial]⟩
  | @step before after label hbefore hstep ih =>
      obtain ⟨hjoined, hnone⟩ := ih
      obtain ⟨hreturned, hexecuting⟩ :=
        worker_idle (reachable_messageQueue hbefore)
      cases label with
      | main =>
          refine ⟨?_, mainStep_log hstep hnone⟩
          rw [← Bool.not_eq_true]
          intro hafter
          rcases (mainStep_grows hstep).2.2.2 hafter with hwas | hworker
          · rw [hjoined] at hwas
            cases hwas
          · exact absurd (hreturned.symm.trans hworker) (by simp)
      | start label =>
          obtain ⟨-, -, -, -, rfl⟩ := startStep_cases hstep
          refine ⟨?_, hnone⟩
          dsimp only
          split <;> rfl
      | capture error =>
          rw [(captureStep_grows hstep).1]
          exact ⟨hjoined, captureStep_log hstep hnone⟩
      | inject report =>
          obtain ⟨henabled, -⟩ := Option.ite_none_right_eq_some.mp hstep
          obtain ⟨-, hworker⟩ := Bool.and_eq_true_iff.mp henabled
          exact absurd (hexecuting.symm.trans hworker) (by simp)
      | queue label =>
          obtain ⟨-, heq | ⟨-, heq⟩⟩ := queueStep_cases hstep
          · rw [heq]
            exact ⟨hjoined, hnone⟩
          · rw [heq]
            exact ⟨rfl, hnone⟩

/-- `sensor_main` never returns: in every interleaving it stays in front of the
join of the poluter, or leaves by the exception of the constructor, and then
there is no thread; no packet is ever injected, and a handle that `init` kept is
never closed.  There is no thread either as long as no other part of the program
gets the number of the acceptor's socket. -/
theorem never_returns
    {queue : MessageQueue.State Node (Option Client) Command}
    {labels : List (Label (MessageQueue.Label Node (Option Client) Command))}
    (hinit : (messageQueue Node Client Command).Init queue)
    (hrun : (system (messageQueue Node Client Command) answers).Run
      (.initial queue) labels state) :
    state.main.poluterJoined = false ∧
      (state.main = .thrown ∨ .start .otherOpen ∉ labels → Alone state) ∧
      (∀ entry ∈ state.log, entry.1 ≠ .inject) ∧
      (answers.handler = true → ∀ entry ∈ state.log, entry.1 ≠ .close) := by
  have hstart : (system (messageQueue Node Client Command) answers).Reachable
      (.initial queue) := .init ⟨queue, hinit, rfl⟩
  have hreach := hstart.run hrun
  obtain ⟨hjoined, hnone⟩ := poluterJoined_eq_false hreach
  refine ⟨hjoined, ?_, hnone, fun hhandler => ?_⟩
  · have hbegan := reachable_began hreach
    rintro (hthrown | hother)
    · exact hbegan.alone (by rw [hthrown]; rfl)
    · exact hbegan.alone (threadless_of_run hrun hother)
  · apply (reachable_invariant hhandler hreach).closed
    intro hmain
    rw [hmain] at hjoined
    cases hjoined

theorem never_returns_untilJoin : ∃ log : List Entry,
    log.length = 8 ∧ (∀ entry ∈ log, entry.1 ≠ .inject) ∧
      ∀ entry ∈ log, entry.1 ≠ .close := by
  let queue : MessageQueue.State ℕ (Option ℕ) ℕ :=
    .initial (fun _ => none) fun _ => none
  let state := (execute (step (messageQueue ℕ ℕ ℕ) allAnswer)
    (State.initial queue) untilJoin).get rfl
  have hexecute : execute (step (messageQueue ℕ ℕ ℕ) allAnswer)
      (State.initial queue) untilJoin = some state := rfl
  have hrun : (system (messageQueue ℕ ℕ ℕ) allAnswer).Run (.initial queue)
      untilJoin state := run_of_execute hexecute
  have hinit : (messageQueue ℕ ℕ ℕ).Init queue := ⟨_, _, rfl⟩
  obtain ⟨-, -, hinject, hclose⟩ := never_returns hinit hrun
  exact ⟨state.log, rfl, hinject, hclose rfl⟩

end Poluter

end Sensor.SensorThreads
