import Sensor.Queue.Eventcount
import Sensor.Queue.IntMpscQueue

/-!
# The message queue over the intrusive pipe

`MessageQueue::send`, `request` and `nullmsg` hand a freshly allocated node to
`IntMpscPipe::send`, and the worker's `run` takes nodes from `IntMpscPipe::recv`
until `receive` returns false.  `IntMpscPipe::send` calls `queue.pop()` where
its sibling `MpscPipe::send` calls `push`: the node it was given reaches no
queue.
-/

namespace Sensor.MessageQueue

open IntMpscQueue Eventcount

/-- Where a thread is inside `IntMpscPipe::send(node)`. -/
inductive PipeSendPc (Node : Type*) where
  | pop (pc : PopPc Node)
  | notify (pc : NotifyPc)
  deriving DecidableEq

/-- A call of `send`, `request` or `nullmsg`: the node it allocated and where
it is inside the pipe. -/
structure Call (Node : Type*) where
  node : Node
  pc : PipeSendPc Node
  deriving DecidableEq

/-- Where the worker is inside `run`: in `pipe->recv()`, at the code of
`receive` after it, or behind the loop. -/
inductive WorkerPc (Node : Type*) where
  | recv (pc : OutPc (PopPc Node) (NodePtr Node))
  | dispatch (node : NodePtr Node)
  | returned
  deriving DecidableEq

/-- A message in the order of its exchange: the node and the command in it,
`none` for a null message. -/
abbrev Message (Node Command : Type*) := Node × Option Command

/-- The state of the queue, the threads that call it and its worker.  `self`
is the command a node carries and `live` tells which nodes are allocated.  The
lists are bookkeeping: the messages of the calls begun, the nodes of the calls
completed, the messages exchanged into the queue, the nodes `pop` returned to
anyone, the nodes `recv` returned, the commands executed and the nodes
deleted. -/
structure State (Node Sender Command : Type*) where
  memory : Memory Node
  eventcount : Eventcount
  sender : Sender → Option (Call Node)
  worker : WorkerPc Node
  self : NodePtr Node → Option Command
  live : Node → Bool
  called : List (Message Node Command)
  completed : List Node
  enqueued : List (Message Node Command)
  popped : List (NodePtr Node)
  received : List (NodePtr Node)
  executed : List Command
  deleted : List (NodePtr Node)

/-- A step: a thread calls `send` or `request` with a command or `nullmsg`
without one, takes its next step in the call, or the worker takes its next
step. -/
inductive Label (Node Sender Command : Type*) where
  | call (sender : Sender) (node : Node) (command : Option Command)
  | send (sender : Sender)
  | work

variable {Node Sender Command : Type*} [DecidableEq Node] [DecidableEq Sender]

/-- The bookkeeping of the exchange inside `pop`. -/
def recordExchange (self : NodePtr Node → Option Command)
    (enqueued : List (Message Node Command)) :
    PopPc Node → List (Message Node Command)
  | .pushStub _ (.exchange (.client node)) =>
      enqueued ++ [(node, self (.client node))]
  | _ => enqueued

/-- The bookkeeping of the node a step of `pop` returns. -/
def recordPop (popped : List (NodePtr Node)) :
    PopResult Node → List (NodePtr Node)
  | .done (some node) => popped ++ [node]
  | _ => popped

/-- `new Command(...)` or `new Node()`, the assignment of `self`, and the call
of `pipe->send`. -/
def callSend (state : State Node Sender Command) (sender : Sender) (node : Node)
    (command : Option Command) : Option (State Node Sender Command) :=
  if state.sender sender = none ∧ state.live node = false then
    some { state with
      sender := Function.update state.sender sender
        (some { node, pc := .pop .loadHead })
      self := Function.update state.self (.client node) command
      live := Function.update state.live node true
      called := state.called ++ [(node, command)] }
  else none

/-- One step of `IntMpscPipe::send`: the whole of `queue.pop()`, whose result
is dropped, and then `eventcount.notify()`. -/
def senderStep (state : State Node Sender Command) (sender : Sender) :
    Option (State Node Sender Command) :=
  (state.sender sender).map fun call =>
    match call.pc with
    | .pop pc =>
        { state with
          memory := (popStep state.memory pc).1
          enqueued := recordExchange state.self state.enqueued pc
          popped := recordPop state.popped (popStep state.memory pc).2
          sender := Function.update state.sender sender (some { call with
            pc := match (popStep state.memory pc).2 with
              | .running pc => .pop pc
              | .done _ => .notify .loadWaiting }) }
    | .notify pc =>
        match notifyStep state.eventcount pc with
        | (eventcount, some pc) =>
            { state with
              eventcount
              sender := Function.update state.sender sender
                (some { call with pc := .notify pc }) }
        | (eventcount, none) =>
            { state with
              eventcount
              sender := Function.update state.sender sender none
              completed := state.completed ++ [call.node] }

/-- `delete cmd` or `delete node`. -/
def free (live : Node → Bool) : NodePtr Node → Node → Bool
  | .client node => Function.update live node false
  | .stub => live

/-- The bookkeeping of a step of `recv`: what the call of `queue.pop()` it is
in does. -/
def recordOut (state : State Node Sender Command) :
    OutPc (PopPc Node) (NodePtr Node) → State Node Sender Command
  | .poll pc | .recheck pc =>
      { state with
        enqueued := recordExchange state.self state.enqueued pc
        popped := recordPop state.popped (popStep state.memory pc).2 }
  | _ => state

/-- One step of `run`. -/
def workerStep (state : State Node Sender Command) :
    Option (State Node Sender Command) :=
  match state.worker with
  | .recv pc =>
      (outStep popStep .loadHead state.memory state.eventcount pc).map
        fun (memory, eventcount, result) =>
          match result with
          | .running next =>
              { recordOut state pc with
                memory, eventcount, worker := .recv next }
          | .done node =>
              { recordOut state pc with
                memory, eventcount
                worker := .dispatch node
                received := state.received ++ [node] }
  | .dispatch node =>
      match state.self node with
      | some command =>
          some { state with
            executed := state.executed ++ [command]
            live := free state.live node
            deleted := state.deleted ++ [node]
            worker := .recv (.poll .loadHead) }
      | none =>
          some { state with
            live := free state.live node
            deleted := state.deleted ++ [node]
            worker := .returned }
  | .returned => none

def step (state : State Node Sender Command) :
    Label Node Sender Command → Option (State Node Sender Command)
  | .call sender node command => callSend state sender node command
  | .send sender => senderStep state sender
  | .work => workerStep state

/-- A queue just constructed whose worker enters `run`. -/
def State.initial (heap : NodePtr Node → Option (NodePtr Node))
    (self : NodePtr Node → Option Command) : State Node Sender Command where
  memory := .new heap
  eventcount := .new
  sender := fun _ => none
  worker := .recv (.poll .loadHead)
  self := self
  live := fun _ => false
  called := []
  completed := []
  enqueued := []
  popped := []
  received := []
  executed := []
  deleted := []

def system (Node Sender Command : Type*) [DecidableEq Node]
    [DecidableEq Sender] :
    TransitionSystem (State Node Sender Command) (Label Node Sender Command) :=
  .ofStep (fun state => ∃ heap self, state = .initial heap self) step

end Sensor.MessageQueue
