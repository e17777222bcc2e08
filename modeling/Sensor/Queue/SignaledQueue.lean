import Sensor.Base.SizeT
import Sensor.Service.AsyncQueue

/-!
# The queue with an event counter

`SignaledQueue` pushes messages onto an `IntMpscQueue` and counts them in an
`eventfd`: `send` and `request` add one behind their push, and `receive` reads
the counter, which sets it to zero, and takes that many messages.  `nullmsg`
pushes without counting.  The places inside the three enqueuing functions are
those of `AsyncQueue`, whose text they share.
-/

namespace Sensor.SignaledQueue

open AsyncQueue IntMpscQueue

/-- The largest value of an `eventfd`; a write that would pass it fails. -/
def eventfdMax : ℕ := 2 ^ 64 - 2

/-- Where the consumer is inside `receive`: in the round `i` of `times`, in
`queue.pop` or at the code behind it. -/
inductive ReceiverPc (Node : Type*) where
  | pop (i times : ℤ)
  | receive (node : NodePtr Node) (i times : ℤ)
  deriving DecidableEq

/-- The queue, the counter, the threads that enqueue and the one that receives.
`self` is the command a node carries and `live` tells which nodes are
allocated; `executed` and `results` list the commands called and what `receive`
returned. -/
structure State (Node Sender Command : Type*) where
  queue : IntMpscQueue.State Node Sender
  counter : ℕ
  sender : Sender → Option (SenderPc Command)
  receiver : Option (ReceiverPc Node)
  self : NodePtr Node → Option Command
  live : Node → Bool
  executed : List Command
  results : List ℤ

/-- A step: a thread calls `send` or `request` with a command or `nullmsg`
without one, takes its next step in the call, or the consumer calls `receive`
or takes its next step. -/
inductive Label (Node Sender Command : Type*) where
  | call (sender : Sender) (node : Node) (command : Option Command)
  | send (sender : Sender)
  | callReceive
  | receive
  deriving DecidableEq

variable {Node Sender Command : Type*}

/-- `Signaler::send`, whose result nobody reads. -/
def signal (state : State Node Sender Command) : State Node Sender Command :=
  if state.counter < eventfdMax then
    { state with counter := state.counter + 1 }
  else state

/-- The test of the loop in `receive`: another round, or the return. -/
def loopTest (state : State Node Sender Command) (i times : ℤ) :
    State Node Sender Command :=
  if i < times then { state with receiver := some (.pop i times) }
  else
    { state with receiver := none, results := state.results ++ [times] }

/-- The descriptor triggers a call of `receive` while the counter is not
zero. -/
def callReceive (state : State Node Sender Command) :
    Option (State Node Sender Command) :=
  if state.receiver.isNone ∧ state.counter ≠ 0 then
    some (loopTest { state with counter := 0 } 0 (SizeT.toInt state.counter))
  else none

variable [DecidableEq Node] [DecidableEq Sender]

/-- `new Command(...)` or `new Node()`, the assignment of `self`, and the call
of `queue.push`. -/
def callSend (state : State Node Sender Command) (sender : Sender) (node : Node)
    (command : Option Command) : Option (State Node Sender Command) :=
  if state.sender sender = none ∧ state.live node = false then
    (callPush state.queue sender node).map fun queue =>
      { state with
        queue
        sender := Function.update state.sender sender (some (.push command))
        self := Function.update state.self (.client node) command
        live := Function.update state.live node true }
  else none

/-- One step of a thread inside `send`, `request` or `nullmsg`. -/
def senderStep (state : State Node Sender Command) (sender : Sender) :
    Option (State Node Sender Command) :=
  match state.sender sender with
  | none => none
  | some (.push command) =>
      (producerStep state.queue sender).map fun queue =>
        { state with
          queue
          sender := match queue.producer sender with
            | some _ => state.sender
            | none => Function.update state.sender sender (afterPush command) }
  | some .signal =>
      some (signal { state with
        sender := Function.update state.sender sender none })

omit [DecidableEq Sender] in
/-- One step of `receive`.  Where `pop` found nothing it is called again. -/
def receiverStep (state : State Node Sender Command) :
    Option (State Node Sender Command) :=
  match state.receiver with
  | none => none
  | some (.pop i times) =>
      match state.queue.consumer with
      | none => (callPop state.queue).map fun queue => { state with queue }
      | some pc =>
          (consumerStep state.queue).map fun queue =>
            { state with
              queue
              receiver := match (popStep state.queue.memory pc).2 with
                | .done (some node) => some (.receive node i times)
                | _ => state.receiver }
  | some (.receive node i times) =>
      some (loopTest
        { state with
          live := release state.live (some node)
          executed := state.executed ++ (state.self node).toList }
        (i + 1) times)

def step (state : State Node Sender Command) :
    Label Node Sender Command → Option (State Node Sender Command)
  | .call sender node command => callSend state sender node command
  | .send sender => senderStep state sender
  | .callReceive => callReceive state
  | .receive => receiverStep state

/-- A queue just constructed. -/
def State.initial (heap : NodePtr Node → Option (NodePtr Node))
    (self : NodePtr Node → Option Command) : State Node Sender Command where
  queue := .initial heap
  counter := 0
  sender := fun _ => none
  receiver := none
  self := self
  live := fun _ => false
  executed := []
  results := []

def system (Node Sender Command : Type*) [DecidableEq Node]
    [DecidableEq Sender] :
    TransitionSystem (State Node Sender Command) (Label Node Sender Command) :=
  .ofStep (fun state => ∃ heap self, state = .initial heap self) step

/-! ## What a step can do -/

variable {state next : State Node Sender Command}

/-- A thread takes a step of `push`, behind which it may return, or signals. -/
theorem senderStep_cases {sender : Sender}
    (hstep : senderStep state sender = some next) :
    (∃ command, state.sender sender = some (.push command) ∧
        producerStep state.queue sender = some next.queue ∧
        next = { state with
          queue := next.queue
          sender := match next.queue.producer sender with
            | some _ => state.sender
            | none =>
                Function.update state.sender sender (afterPush command) }) ∨
      (state.sender sender = some .signal ∧
        next = signal { state with
          sender := Function.update state.sender sender none }) := by
  cases hplace : state.sender sender with
  | none => simp [senderStep, hplace] at hstep
  | some place =>
      cases place with
      | push command =>
          simp only [senderStep, hplace] at hstep
          obtain ⟨queue, hpush, rfl⟩ := Option.map_eq_some_iff.mp hstep
          exact .inl ⟨command, rfl, hpush, rfl⟩
      | signal =>
          simp only [senderStep, hplace, Option.some.injEq] at hstep
          exact .inr ⟨rfl, hstep.symm⟩

omit [DecidableEq Node] [DecidableEq Sender] in
theorem queue_signal : (signal state).queue = state.queue := by
  rw [signal]
  split <;> rfl

end Sensor.SignaledQueue
