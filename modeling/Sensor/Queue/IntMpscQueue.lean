import Sensor.Core.TransitionSystem
import Mathlib.Data.List.Infix

/-!
# The intrusive multi-producer single-consumer queue

`IntMpscQueue` links the nodes its clients bring through their own `next`
field.  The queue keeps a `head`, a `tail` and a `stub` node of its own, which
`pop` puts back whenever the last client node would leave the list empty.

Every load, store and exchange of `push` and `pop` is one step on the shared
`Memory`; a thread inside one of the two functions is at a `PushPc` or a
`PopPc`, which carries the values of its local variables.
-/

namespace Sensor.IntMpscQueue

/-- A node address: the `stub` member or a node a client brought. -/
inductive NodePtr (Node : Type*) where
  | stub
  | client (node : Node)
  deriving DecidableEq

/-- The shared words: `head`, `tail` and the `next` field of every node. -/
structure Memory (Node : Type*) where
  head : NodePtr Node
  tail : NodePtr Node
  next : NodePtr Node → Option (NodePtr Node)

/-- Where a thread is inside `push(next)`, with its local `prev`. -/
inductive PushPc (Node : Type*) where
  | clearNext (next : NodePtr Node)
  | exchange (next : NodePtr Node)
  | linkPrev (next prev : NodePtr Node)
  deriving DecidableEq

/-- The node a thread inside `push` is pushing. -/
def PushPc.node {Node : Type*} : PushPc Node → NodePtr Node
  | .clearNext next => next
  | .exchange next => next
  | .linkPrev next _ => next

/-- Where the consumer is inside `pop`, with its locals `h` and `n`. -/
inductive PopPc (Node : Type*) where
  | loadHead
  | loadNext (h : NodePtr Node)
  | skipStub (n : NodePtr Node)
  | reloadNext (h : NodePtr Node)
  | takeHead (h n : NodePtr Node)
  | loadTail (h : NodePtr Node)
  | pushStub (h : NodePtr Node) (pc : PushPc Node)
  | lastNext (h : NodePtr Node)
  deriving DecidableEq

/-- What one step of `pop` leads to; `none` is the result `nullptr`. -/
abbrev PopResult (Node : Type*) :=
  StepResult (PopPc Node) (Option (NodePtr Node))

variable {Node : Type*} [DecidableEq Node]

/-- The constructor: the stub is the only node of the list.  The `next` fields
of client nodes keep whatever `heap` they had. -/
def Memory.new (heap : NodePtr Node → Option (NodePtr Node)) : Memory Node where
  head := .stub
  tail := .stub
  next := Function.update heap .stub none

/-- One step of `push`; `none` when the call returns. -/
def pushStep (memory : Memory Node) :
    PushPc Node → Memory Node × Option (PushPc Node)
  | .clearNext next =>
      ({ memory with next := Function.update memory.next next none },
        some (.exchange next))
  | .exchange next =>
      ({ memory with tail := next }, some (.linkPrev next memory.tail))
  | .linkPrev next prev =>
      ({ memory with next := Function.update memory.next prev (some next) },
        none)

/-- `if (n) { head.store(n); return h; }`, its test. -/
def takeOr (h : NodePtr Node) (n : Option (NodePtr Node))
    (otherwise : PopResult Node) : PopResult Node :=
  match n with
  | some n => .running (.takeHead h n)
  | none => otherwise

/-- One step of `pop`. -/
def popStep (memory : Memory Node) : PopPc Node → Memory Node × PopResult Node
  | .loadHead => (memory, .running (.loadNext memory.head))
  | .loadNext h =>
      if h = .stub then
        match memory.next h with
        | none => (memory, .done none)
        | some n => (memory, .running (.skipStub n))
      else
        (memory, takeOr h (memory.next h) (.running (.loadTail h)))
  | .skipStub n => ({ memory with head := n }, .running (.reloadNext n))
  | .reloadNext h =>
      (memory, takeOr h (memory.next h) (.running (.loadTail h)))
  | .takeHead h n => ({ memory with head := n }, .done (some h))
  | .loadTail h =>
      if memory.tail ≠ h then
        (memory, .done none)
      else
        (memory, .running (.pushStub h (.clearNext .stub)))
  | .pushStub h pc =>
      match pushStep memory pc with
      | (memory, some pc) => (memory, .running (.pushStub h pc))
      | (memory, none) => (memory, .running (.lastNext h))
  | .lastNext h => (memory, takeOr h (memory.next h) (.done none))

/-! ## Any number of producers and one consumer -/

/-- A state of the whole system.  `pushed` lists the nodes in the order of
their `tail.exchange` and `returned` the results of `pop` other than
`nullptr`; both are bookkeeping.  `inUse` says which nodes belong to the
queue, from the call of `push` until `pop` returns them; a client may only
push a node that is not in use. -/
structure State (Node Producer : Type*) where
  memory : Memory Node
  producer : Producer → Option (PushPc Node)
  consumer : Option (PopPc Node)
  pushed : List (NodePtr Node)
  returned : List (NodePtr Node)
  inUse : Node → Bool

/-- A step of the system: a producer calls `push` or takes its next step, the
consumer calls `pop` or takes its next step. -/
inductive Label (Node Producer : Type*) where
  | callPush (producer : Producer) (node : Node)
  | push (producer : Producer)
  | callPop
  | pop

variable {Producer : Type*} [DecidableEq Producer]

/-- The bookkeeping of a producer step: an exchange pushes the node. -/
def recordPush (pushed : List (NodePtr Node)) :
    PushPc Node → List (NodePtr Node)
  | .exchange next => pushed ++ [next]
  | _ => pushed

/-- The bookkeeping when `pop` returns `result`. -/
def release (inUse : Node → Bool) : Option (NodePtr Node) → Node → Bool
  | some (.client node) => Function.update inUse node false
  | _ => inUse

def callPush (state : State Node Producer) (producer : Producer) (node : Node) :
    Option (State Node Producer) :=
  if state.producer producer = none ∧ state.inUse node = false then
    some { state with
      producer := Function.update state.producer producer
        (some (.clearNext (.client node)))
      inUse := Function.update state.inUse node true }
  else none

def producerStep (state : State Node Producer) (producer : Producer) :
    Option (State Node Producer) :=
  (state.producer producer).map fun pc =>
    { state with
      memory := (pushStep state.memory pc).1
      producer := Function.update state.producer producer
        (pushStep state.memory pc).2
      pushed := recordPush state.pushed pc }

def callPop (state : State Node Producer) : Option (State Node Producer) :=
  if state.consumer = none then
    some { state with consumer := some .loadHead }
  else none

def consumerStep (state : State Node Producer) : Option (State Node Producer) :=
  state.consumer.map fun pc =>
    match popStep state.memory pc with
    | (memory, .running pc) => { state with memory, consumer := some pc }
    | (memory, .done result) =>
        { state with
          memory
          consumer := none
          returned := state.returned ++ result.toList
          inUse := release state.inUse result }

def step (state : State Node Producer) :
    Label Node Producer → Option (State Node Producer)
  | .callPush producer node => callPush state producer node
  | .push producer => producerStep state producer
  | .callPop => callPop state
  | .pop => consumerStep state

/-- A queue just constructed, with no thread inside it. -/
def State.initial (heap : NodePtr Node → Option (NodePtr Node)) :
    State Node Producer where
  memory := .new heap
  producer := fun _ => none
  consumer := none
  pushed := []
  returned := []
  inUse := fun _ => false

def system (Node Producer : Type*) [DecidableEq Node] [DecidableEq Producer] :
    TransitionSystem (State Node Producer) (Label Node Producer) :=
  .ofStep (fun state => ∃ heap, state = .initial heap) step

/-! ## What a step can do -/

variable {state next : State Node Producer}

omit [DecidableEq Producer] in
/-- A step of the consumer stays inside `pop` or returns from it. -/
theorem consumerStep_cases (hstep : consumerStep state = some next) :
    (∃ pc memory pc', state.consumer = some pc ∧
        popStep state.memory pc = (memory, .running pc') ∧
        next = { state with memory, consumer := some pc' }) ∨
      ∃ pc memory result, state.consumer = some pc ∧
        popStep state.memory pc = (memory, .done result) ∧
        next = { state with
          memory
          consumer := none
          returned := state.returned ++ result.toList
          inUse := release state.inUse result } := by
  obtain ⟨pc, hpc, rfl⟩ := Option.map_eq_some_iff.mp hstep
  cases hpop : popStep state.memory pc with
  | mk memory result =>
      cases result with
      | running pc' => exact .inl ⟨pc, memory, pc', hpc, hpop, rfl⟩
      | done result => exact .inr ⟨pc, memory, result, hpc, hpop, rfl⟩

end Sensor.IntMpscQueue
