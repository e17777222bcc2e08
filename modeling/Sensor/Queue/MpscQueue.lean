import Sensor.Core.TransitionSystem
import Mathlib.Data.List.Infix

/-!
# The allocating multi-producer single-consumer queue

`MpscQueue` copies each value into a node of its own.  The node at `head` is a
dummy whose value was already popped; `pop` deletes the old dummy and makes
the next node the dummy.

Node addresses come from an allocator that may hand out an address again once
its node was deleted; `live` says which addresses hold a node.
-/

namespace Sensor.MpscQueue

/-- The shared words and the heap of nodes. -/
structure Memory (Addr Data : Type*) where
  head : Addr
  tail : Addr
  next : Addr → Option Addr
  data : Addr → Data
  live : Addr → Bool

/-- Where a producer is inside `push(data)`, after `new Node()` returned the
address `next`. -/
inductive PushPc (Addr Data : Type*) where
  | writeData (next : Addr) (data : Data)
  | clearNext (next : Addr)
  | exchange (next : Addr)
  | linkPrev (next prev : Addr)

/-- The node a producer is pushing. -/
def PushPc.node {Addr Data : Type*} : PushPc Addr Data → Addr
  | .writeData next _ => next
  | .clearNext next => next
  | .exchange next => next
  | .linkPrev next _ => next

/-- Where the consumer is inside `pop(data)`. -/
inductive PopPc (Addr Data : Type*) where
  | loadHead
  | loadNext (h : Addr)
  | storeHead (h next : Addr)
  | readData (h next : Addr)
  | deleteHead (h : Addr) (data : Data)

variable {Addr Data : Type*} [DecidableEq Addr]

/-- `new Node()` at the address `node`: both fields are zeroed. -/
def Memory.allocate [Inhabited Data] (memory : Memory Addr Data)
    (node : Addr) : Memory Addr Data :=
  { memory with
    next := Function.update memory.next node none
    data := Function.update memory.data node default
    live := Function.update memory.live node true }

/-- `delete node`. -/
def Memory.delete (memory : Memory Addr Data) (node : Addr) :
    Memory Addr Data :=
  { memory with live := Function.update memory.live node false }

/-- The constructor, on a heap whose nodes are all free and whose fields hold
anything: the dummy is the only node. -/
def Memory.new [Inhabited Data] (dummy : Addr) (next : Addr → Option Addr)
    (data : Addr → Data) : Memory Addr Data :=
  Memory.allocate
    { head := dummy, tail := dummy, next, data, live := fun _ => false } dummy

/-- One step of `push` after the allocation; `none` when the call returns. -/
def pushStep (memory : Memory Addr Data) :
    PushPc Addr Data → Memory Addr Data × Option (PushPc Addr Data)
  | .writeData next data =>
      ({ memory with data := Function.update memory.data next data },
        some (.clearNext next))
  | .clearNext next =>
      ({ memory with next := Function.update memory.next next none },
        some (.exchange next))
  | .exchange next =>
      ({ memory with tail := next }, some (.linkPrev next memory.tail))
  | .linkPrev next prev =>
      ({ memory with next := Function.update memory.next prev (some next) },
        none)

/-- One step of `pop`.  The result is the value stored into `data` when the
call returns true, and `none` when it returns false. -/
def popStep (memory : Memory Addr Data) :
    PopPc Addr Data →
      Memory Addr Data × StepResult (PopPc Addr Data) (Option Data)
  | .loadHead => (memory, .running (.loadNext memory.head))
  | .loadNext h =>
      match memory.next h with
      | some next => (memory, .running (.storeHead h next))
      | none => (memory, .done none)
  | .storeHead h next =>
      ({ memory with head := next }, .running (.readData h next))
  | .readData h next => (memory, .running (.deleteHead h (memory.data next)))
  | .deleteHead h data => (memory.delete h, .done (some data))

/-- The addresses of nodes the next step of a producer reads or writes. -/
def PushPc.accesses : PushPc Addr Data → Option Addr
  | .writeData next _ => some next
  | .clearNext next => some next
  | .exchange _ => none
  | .linkPrev _ prev => some prev

/-- The address the next step of the consumer reads, writes or deletes. -/
def PopPc.accesses : PopPc Addr Data → Option Addr
  | .loadHead => none
  | .loadNext h => some h
  | .storeHead _ _ => none
  | .readData _ next => some next
  | .deleteHead h _ => some h

/-! ## The destructor -/

/-- What the destructor did: the heap it left, the nodes it deleted and the
values it applied `clearData` to, in order. -/
structure Destroyed (Addr Data : Type*) where
  memory : Memory Addr Data
  deleted : List Addr
  cleared : List Data

/-- The loop `while ((node = next))`, stopped after `fuel` iterations. -/
def destroyLoop : ℕ → Option Addr → Destroyed Addr Data →
    Option (Destroyed Addr Data)
  | _, none, done => some done
  | 0, some _, _ => none
  | fuel + 1, some node, done =>
      destroyLoop fuel (done.memory.next node)
        { memory := done.memory.delete node
          deleted := done.deleted ++ [node]
          cleared := done.cleared ++ [done.memory.data node] }

/-- The destructor: the node at `head`, which is never null, is deleted
without `clearData`. -/
def destroy (fuel : ℕ) (memory : Memory Addr Data) :
    Option (Destroyed Addr Data) :=
  destroyLoop fuel (memory.next memory.head)
    { memory := memory.delete memory.head
      deleted := [memory.head]
      cleared := [] }

/-! ## Any number of producers and one consumer -/

/-- A state of the whole system.  The lists are bookkeeping: the values in the
order of their `tail.exchange`, the values `pop` returned, and the nodes
allocated and deleted. -/
structure State (Addr Data Producer : Type*) where
  memory : Memory Addr Data
  producer : Producer → Option (PushPc Addr Data)
  consumer : Option (PopPc Addr Data)
  pushed : List Data
  popped : List Data
  allocated : List Addr
  deleted : List Addr

/-- A step of the system: a producer calls `push` and allocates its node, or
takes its next step; the consumer calls `pop` or takes its next step. -/
inductive Label (Addr Data Producer : Type*) where
  | callPush (producer : Producer) (node : Addr) (data : Data)
  | push (producer : Producer)
  | callPop
  | pop

variable {Producer : Type*} [DecidableEq Producer]

/-- The bookkeeping of a producer step: an exchange pushes the value its node
holds. -/
def recordPush (memory : Memory Addr Data) (pushed : List Data) :
    PushPc Addr Data → List Data
  | .exchange next => pushed ++ [memory.data next]
  | _ => pushed

def callPush [Inhabited Data] (state : State Addr Data Producer)
    (producer : Producer) (node : Addr) (data : Data) :
    Option (State Addr Data Producer) :=
  if state.producer producer = none ∧ state.memory.live node = false then
    some { state with
      memory := state.memory.allocate node
      producer := Function.update state.producer producer
        (some (.writeData node data))
      allocated := state.allocated ++ [node] }
  else none

def producerStep (state : State Addr Data Producer) (producer : Producer) :
    Option (State Addr Data Producer) :=
  (state.producer producer).map fun pc =>
    { state with
      memory := (pushStep state.memory pc).1
      producer := Function.update state.producer producer
        (pushStep state.memory pc).2
      pushed := recordPush state.memory state.pushed pc }

def callPop (state : State Addr Data Producer) :
    Option (State Addr Data Producer) :=
  match state.consumer with
  | none => some { state with consumer := some .loadHead }
  | some _ => none

/-- The bookkeeping of a step of `pop` that deletes a node. -/
def PopPc.deletes : PopPc Addr Data → List Addr
  | .deleteHead h _ => [h]
  | _ => []

def consumerStep (state : State Addr Data Producer) :
    Option (State Addr Data Producer) :=
  state.consumer.map fun pc =>
    match popStep state.memory pc with
    | (memory, .running pc) => { state with memory, consumer := some pc }
    | (memory, .done result) =>
        { state with
          memory
          consumer := none
          popped := state.popped ++ result.toList
          deleted := state.deleted ++ pc.deletes }

def step [Inhabited Data] (state : State Addr Data Producer) :
    Label Addr Data Producer → Option (State Addr Data Producer)
  | .callPush producer node data => callPush state producer node data
  | .push producer => producerStep state producer
  | .callPop => callPop state
  | .pop => consumerStep state

/-- A queue just constructed, with no thread inside it. -/
def State.initial [Inhabited Data] (dummy : Addr) (next : Addr → Option Addr)
    (data : Addr → Data) : State Addr Data Producer where
  memory := .new dummy next data
  producer := fun _ => none
  consumer := none
  pushed := []
  popped := []
  allocated := [dummy]
  deleted := []

def system (Addr Data Producer : Type*) [DecidableEq Addr] [Inhabited Data]
    [DecidableEq Producer] :
    TransitionSystem (State Addr Data Producer) (Label Addr Data Producer) :=
  .ofStep (fun state => ∃ dummy next data, state = .initial dummy next data)
    step

end Sensor.MpscQueue
