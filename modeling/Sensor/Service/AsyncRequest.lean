import Mathlib
import Sensor.Service.AsyncQueueOrder
import Sensor.Cmd.FutureHandover

/-!
# Requests to an event loop

`request` puts a `RequestCommand` into the queue of an event loop and returns
the future of its promise.  The loop applies the function of the command, sets
the result with `set_value`, and deletes the command; any thread may meanwhile
wait on the future.  Here the queue and the futures of all requests run side by
side.
-/

namespace Sensor.AsyncRequest

open IntMpscQueue TransitionSystem

/-- What a node carries: a `Command`, or the `RequestCommand` of a request. -/
inductive Message (Task Request : Type*) where
  | task (task : Task)
  | request (request : Request)
  deriving DecidableEq

def Message.request? {Task Request : Type*} : Message Task Request →
    Option Request
  | .task _ => none
  | .request own => some own

/-- The queue and its loop, and the future of every request.  `issued` tells
which requests were constructed; `applied` records the results of the functions
in the order of their calls. -/
structure State (Node Sender Waiter Task Request Value : Type*) where
  queue : AsyncQueue.State Node Sender (Message Task Request)
  future : Request → Future.State Waiter Value
  issued : Request → Bool
  applied : List (Request × Value)

/-- A step: those of the queue, where `call` may construct a request; the
function of the request at hand returns a value to `set_value`, which takes its
next step; and the steps of the threads that wait on a future. -/
inductive Label (Node Sender Waiter Task Request Value : Type*) where
  | call (sender : Sender) (node : Node)
      (message : Option (Message Task Request))
  | send (sender : Sender)
  | dispatch
  | callback
  | apply (value : Value)
  | setValue
  | callWait (request : Request) (waiter : Waiter) (call : Future.WaitCall)
  | wait (request : Request) (waiter : Waiter)
  | wake (request : Request) (waiter : Waiter)

variable {Node Sender Waiter Task Request Value : Type*}

/-- The request `receive` has at hand. -/
def State.atHand (state : State Node Sender Waiter Task Request Value) :
    Option Request :=
  match state.queue.callback with
  | some (.receive node) => (state.queue.self node).bind Message.request?
  | _ => none

/-- `set_value` returned, behind which `call` returns and `delete cmd` runs. -/
def isFinished : Future.SetterPc Value → Bool
  | .finished => true
  | _ => false

/-- The step of the queue behind a step. -/
def queueLabel : Label Node Sender Waiter Task Request Value →
    Option (AsyncQueue.Label Node Sender (Message Task Request))
  | .call sender node message => some (.call sender node message)
  | .send sender => some (.send sender)
  | .dispatch => some .dispatch
  | .callback => some .callback
  | _ => none

variable [DecidableEq Node] [DecidableEq Sender] [DecidableEq Waiter]
variable [DecidableEq Request]

/-- `send`, `request` or `nullmsg`; the command of a request and its promise
are new. -/
def call (state : State Node Sender Waiter Task Request Value)
    (sender : Sender) (node : Node) (message : Option (Message Task Request)) :
    Option (State Node Sender Waiter Task Request Value) :=
  match message.bind Message.request? with
  | none =>
      (AsyncQueue.callSend state.queue sender node message).map fun queue =>
        { state with queue }
  | some request =>
      if state.issued request then none
      else
        (AsyncQueue.callSend state.queue sender node message).map fun queue =>
          { state with
            queue
            issued := Function.update state.issued request true }

/-- A step of the loop; it leaves a request at hand when `set_value` is through
with its promise. -/
def callbackStep (state : State Node Sender Waiter Task Request Value) :
    Option (State Node Sender Waiter Task Request Value) :=
  if state.atHand.all fun request => isFinished (state.future request).setter
  then
    (AsyncQueue.callbackStep state.queue).map fun queue =>
      { state with queue }
  else none

/-- The function of the request at hand returns, and `set_value` is called. -/
def apply (state : State Node Sender Waiter Task Request Value)
    (value : Value) : Option (State Node Sender Waiter Task Request Value) :=
  state.atHand.bind fun request =>
    (Future.callSetValue (state.future request) value).map fun future =>
      { state with
        future := Function.update state.future request future
        applied := state.applied ++ [(request, value)] }

/-- The next step of the `set_value` of the request at hand. -/
def setValueStep (state : State Node Sender Waiter Task Request Value) :
    Option (State Node Sender Waiter Task Request Value) :=
  state.atHand.bind fun request =>
    (Future.setValueStep (state.future request)).map fun future =>
      { state with future := Function.update state.future request future }

/-- A step of a thread that waits on the future of a request. -/
def waitOn (state : State Node Sender Waiter Task Request Value)
    (request : Request) (label : Future.Label Waiter Value) :
    Option (State Node Sender Waiter Task Request Value) :=
  if state.issued request then
    (Future.step (state.future request) label).map fun future =>
      { state with future := Function.update state.future request future }
  else none

def step (state : State Node Sender Waiter Task Request Value) :
    Label Node Sender Waiter Task Request Value →
      Option (State Node Sender Waiter Task Request Value)
  | .call sender node message => call state sender node message
  | .send sender =>
      (AsyncQueue.senderStep state.queue sender).map fun queue =>
        { state with queue }
  | .dispatch =>
      (AsyncQueue.dispatch state.queue).map fun queue => { state with queue }
  | .callback => callbackStep state
  | .apply value => apply state value
  | .setValue => setValueStep state
  | .callWait request waiter call =>
      waitOn state request (.callWait waiter call)
  | .wait request waiter => waitOn state request (.wait waiter)
  | .wake request waiter => waitOn state request (.wake waiter)

/-- A queue just constructed and started. -/
def State.initial (heap : NodePtr Node → Option (NodePtr Node))
    (self : NodePtr Node → Option (Message Task Request)) :
    State Node Sender Waiter Task Request Value where
  queue := .initial heap self
  future := fun _ => .initial
  issued := fun _ => false
  applied := []

def system (Node Sender Waiter Task Request Value : Type*) [DecidableEq Node]
    [DecidableEq Sender] [DecidableEq Waiter] [DecidableEq Request] :
    TransitionSystem (State Node Sender Waiter Task Request Value)
      (Label Node Sender Waiter Task Request Value) :=
  .ofStep (fun state => ∃ heap self, state = .initial heap self) step

/-! ## What a step can do -/

variable {state next : State Node Sender Waiter Task Request Value}

omit [DecidableEq Waiter] in
theorem call_cases {sender : Sender} {node : Node}
    {message : Option (Message Task Request)}
    (hstep : call state sender node message = some next) :
    AsyncQueue.callSend state.queue sender node message = some next.queue ∧
      ((message.bind Message.request? = none ∧
        next = { state with queue := next.queue }) ∨
      ∃ request, message.bind Message.request? = some request ∧
        state.issued request = false ∧
        next = { state with
          queue := next.queue
          issued := Function.update state.issued request true }) := by
  rw [call] at hstep
  split at hstep
  case h_1 hmessage =>
    obtain ⟨queue, hqueue, rfl⟩ := Option.map_eq_some_iff.mp hstep
    exact ⟨hqueue, .inl ⟨hmessage, rfl⟩⟩
  case h_2 request hmessage =>
    split at hstep
    case isTrue => cases hstep
    case isFalse hissued =>
      obtain ⟨queue, hqueue, rfl⟩ := Option.map_eq_some_iff.mp hstep
      rw [Bool.not_eq_true] at hissued
      exact ⟨hqueue, .inr ⟨request, hmessage, hissued, rfl⟩⟩

omit [DecidableEq Sender] [DecidableEq Waiter] [DecidableEq Request] in
theorem callbackStep_cases (hstep : callbackStep state = some next) :
    (∀ request, state.atHand = some request →
      (state.future request).setter = .finished) ∧
    AsyncQueue.callbackStep state.queue = some next.queue ∧
      next = { state with queue := next.queue } := by
  obtain ⟨hall, hmap⟩ := Option.ite_none_right_eq_some.mp hstep
  obtain ⟨queue, hqueue, rfl⟩ := Option.map_eq_some_iff.mp hmap
  refine ⟨?_, hqueue, rfl⟩
  intro request hrequest
  rw [hrequest, Option.all_some] at hall
  cases hsetter : (state.future request).setter with
  | finished => rfl
  | _ => rw [hsetter] at hall; cases hall

omit [DecidableEq Node] [DecidableEq Sender] [DecidableEq Waiter] in
theorem apply_cases {value : Value} (hstep : apply state value = some next) :
    ∃ request future, state.atHand = some request ∧
      Future.callSetValue (state.future request) value = some future ∧
      next = { state with
        future := Function.update state.future request future
        applied := state.applied ++ [(request, value)] } := by
  obtain ⟨request, hrequest, hmap⟩ := Option.bind_eq_some_iff.mp hstep
  obtain ⟨future, hfuture, rfl⟩ := Option.map_eq_some_iff.mp hmap
  exact ⟨request, future, hrequest, hfuture, rfl⟩

omit [DecidableEq Node] [DecidableEq Sender] [DecidableEq Waiter] in
theorem setValueStep_cases (hstep : setValueStep state = some next) :
    ∃ request future, state.atHand = some request ∧
      Future.setValueStep (state.future request) = some future ∧
      next = { state with
        future := Function.update state.future request future } := by
  obtain ⟨request, hrequest, hmap⟩ := Option.bind_eq_some_iff.mp hstep
  obtain ⟨future, hfuture, rfl⟩ := Option.map_eq_some_iff.mp hmap
  exact ⟨request, future, hrequest, hfuture, rfl⟩

omit [DecidableEq Node] [DecidableEq Sender] in
theorem waitOn_cases {request : Request} {label : Future.Label Waiter Value}
    (hstep : waitOn state request label = some next) :
    ∃ future, state.issued request = true ∧
      Future.step (state.future request) label = some future ∧
      next = { state with
        future := Function.update state.future request future } := by
  obtain ⟨hissued, hmap⟩ := Option.ite_none_right_eq_some.mp hstep
  obtain ⟨future, hfuture, rfl⟩ := Option.map_eq_some_iff.mp hmap
  exact ⟨future, hissued, hfuture, rfl⟩

/-- A step is one of the queue, which leaves the futures alone, or one of the
future of one request, which leaves the queue alone. -/
theorem step_cases {label : Label Node Sender Waiter Task Request Value}
    (hstep : step state label = some next) :
    (∃ part, queueLabel label = some part ∧
      AsyncQueue.step state.queue part = some next.queue ∧
      next.future = state.future ∧ next.applied = state.applied) ∨
    (queueLabel label = none ∧ next.queue = state.queue ∧
      (state.atHand = none → next.applied = state.applied) ∧
      ∃ request part future,
        Future.step (state.future request) part = some future ∧
        next.future = Function.update state.future request future) := by
  cases label with
  | call sender node message =>
      obtain ⟨hqueue, ⟨-, heq⟩ | ⟨request, -, -, heq⟩⟩ := call_cases hstep
      · exact .inl ⟨_, rfl, hqueue, by rw [heq], by rw [heq]⟩
      · exact .inl ⟨_, rfl, hqueue, by rw [heq], by rw [heq]⟩
  | send sender =>
      obtain ⟨queue, hqueue, rfl⟩ := Option.map_eq_some_iff.mp hstep
      exact .inl ⟨_, rfl, hqueue, rfl, rfl⟩
  | dispatch =>
      obtain ⟨queue, hqueue, rfl⟩ := Option.map_eq_some_iff.mp hstep
      exact .inl ⟨_, rfl, hqueue, rfl, rfl⟩
  | callback =>
      obtain ⟨-, hqueue, heq⟩ := callbackStep_cases hstep
      exact .inl ⟨_, rfl, hqueue, by rw [heq], by rw [heq]⟩
  | apply value =>
      obtain ⟨request, future, hatHand, hfuture, rfl⟩ := apply_cases hstep
      have hother : state.atHand ≠ none := by simp [hatHand]
      exact .inr ⟨rfl, rfl, fun hnone => absurd hnone hother, request,
        .callSetValue value, future, hfuture, rfl⟩
  | setValue =>
      obtain ⟨request, future, -, hfuture, rfl⟩ := setValueStep_cases hstep
      exact .inr ⟨rfl, rfl, fun _ => rfl, request, .setValue, future, hfuture,
        rfl⟩
  | callWait request waiter call =>
      obtain ⟨future, -, hfuture, rfl⟩ := waitOn_cases hstep
      exact .inr ⟨rfl, rfl, fun _ => rfl, request, _, future, hfuture, rfl⟩
  | wait request waiter =>
      obtain ⟨future, -, hfuture, rfl⟩ := waitOn_cases hstep
      exact .inr ⟨rfl, rfl, fun _ => rfl, request, _, future, hfuture, rfl⟩
  | wake request waiter =>
      obtain ⟨future, -, hfuture, rfl⟩ := waitOn_cases hstep
      exact .inr ⟨rfl, rfl, fun _ => rfl, request, _, future, hfuture, rfl⟩

theorem reachable_queue
    (hreach : (system Node Sender Waiter Task Request Value).Reachable state) :
    (AsyncQueue.system Node Sender (Message Task Request)).Reachable
      state.queue := by
  apply hreach.project State.queue
  · rintro start ⟨heap, self, rfl⟩
    exact ⟨heap, self, rfl⟩
  · intro before label after hstep
    rcases step_cases hstep with ⟨part, -, hqueue, -⟩ | ⟨-, hqueue, -⟩
    · exact .inr ⟨part, hqueue⟩
    · exact .inl hqueue

theorem reachable_future
    (hreach : (system Node Sender Waiter Task Request Value).Reachable state)
    (request : Request) :
    (Future.system Waiter Value).Reachable (state.future request) := by
  apply hreach.project fun state => state.future request
  · rintro start ⟨heap, self, rfl⟩
    rfl
  · intro before label after hstep
    rcases step_cases hstep with
      ⟨-, -, -, hfuture, -⟩ | ⟨-, -, -, own, part, future, hpart, hfuture⟩
    · exact .inl (by rw [hfuture])
    · by_cases heq : request = own
      · subst heq
        refine .inr ⟨part, ?_⟩
        rw [hfuture, Function.update_self]
        exact hpart
      · exact .inl (by rw [hfuture, Function.update_of_ne heq])

end Sensor.AsyncRequest
