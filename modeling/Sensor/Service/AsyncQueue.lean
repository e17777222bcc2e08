import Sensor.Queue.IntMpscQueue

/-!
# The message queue of an event loop

`AsyncQueue` hands commands to an event loop: `send` and `request` push a node
onto an `IntMpscQueue` and call `ev_async_send`, and the loop answers a signal
with `asyncCallback`, which receives one message and stops the watcher when
`receive` returns false.  `nullmsg` pushes its node without a signal.

Of libev the model keeps what its documentation promises: a signal to an
active watcher makes the callback run at least once afterwards, and signals
that wait for the same callback are one signal.
-/

namespace Sensor.AsyncQueue

open IntMpscQueue

/-- Where a thread is inside `send`, `request` or `nullmsg`: in `queue.push`
with the command of its node, or at `ev_async_send`. -/
inductive SenderPc (Command : Type*) where
  | push (command : Option Command)
  | signal
  deriving DecidableEq

/-- Where the loop is inside `asyncCallback`: in `queue.pop`, at the code of
`receive` behind it, or at `stop`, which `null` says a null message led to. -/
inductive CallbackPc (Node : Type*) where
  | pop
  | receive (node : NodePtr Node)
  | stop (null : Bool)
  deriving DecidableEq

/-- The queue, the threads that call it and the loop that serves it.  `self`
is the command a node carries and `live` tells which nodes are allocated;
`active` and `pending` are the state of the watcher.  `signals`,
`stoppedByNull`, `executed` and `deleted` are bookkeeping. -/
structure State (Node Sender Command : Type*) where
  queue : IntMpscQueue.State Node Sender
  sender : Sender → Option (SenderPc Command)
  callback : Option (CallbackPc Node)
  self : NodePtr Node → Option Command
  live : Node → Bool
  active : Bool
  pending : Bool
  signals : ℕ
  stoppedByNull : Bool
  executed : List Command
  deleted : List (NodePtr Node)

/-- A step: a thread calls `send` or `request` with a command or `nullmsg`
without one, takes its next step in the call, or the loop starts the callback
or takes its next step. -/
inductive Label (Node Sender Command : Type*) where
  | call (sender : Sender) (node : Node) (command : Option Command)
  | send (sender : Sender)
  | dispatch
  | callback

variable {Node Sender Command : Type*}

/-- Behind `queue.push`: a call with a command signals, `nullmsg` returns. -/
def afterPush : Option Command → Option (SenderPc Command)
  | some _ => some .signal
  | none => none

/-- `ev_async_send`; a stopped watcher gets no callback. -/
def asyncSend (state : State Node Sender Command) : State Node Sender Command :=
  { state with
    pending := state.pending || state.active
    signals := state.signals + 1 }

/-- `ev_async_stop`, which clears a pending event. -/
def asyncStop (state : State Node Sender Command) : State Node Sender Command :=
  { state with active := false, pending := false }

variable [DecidableEq Node] [DecidableEq Sender]

/-- `new Command(...)` or `new Node()`, the assignment of `self`, and the call
of `queue.push`. -/
def callSend (state : State Node Sender Command) (sender : Sender) (node : Node)
    (command : Option Command) : Option (State Node Sender Command) :=
  if state.sender sender = none ∧ state.live node = false then
    (callPush state.queue sender node).map fun queue =>
      { state with
        queue
        sender := Function.update state.sender sender (some (.push command))
        self := Function.update state.self (.client node) command
        live := Function.update state.live node true }
  else none

/-- One step of a thread inside `send`, `request` or `nullmsg`. -/
def senderStep (state : State Node Sender Command) (sender : Sender) :
    Option (State Node Sender Command) :=
  match state.sender sender with
  | none => none
  | some (.push command) =>
      (producerStep state.queue sender).map fun queue =>
        { state with
          queue
          sender := match queue.producer sender with
            | some _ => state.sender
            | none => Function.update state.sender sender (afterPush command) }
  | some .signal =>
      some (asyncSend { state with
        sender := Function.update state.sender sender none })

/-- The loop runs the callback of an active watcher.  It does so after a
signal, and may do so without one. -/
def dispatch (state : State Node Sender Command) :
    Option (State Node Sender Command) :=
  if state.active = true ∧ state.callback = none then
    (callPop state.queue).map fun queue =>
      { state with queue, pending := false, callback := some .pop }
  else none

/-- One step of `asyncCallback`. -/
def callbackStep (state : State Node Sender Command) :
    Option (State Node Sender Command) :=
  match state.callback with
  | none => none
  | some .pop =>
      state.queue.consumer.bind fun pc =>
        (consumerStep state.queue).map fun queue =>
          { state with
            queue
            callback := match (popStep state.queue.memory pc).2 with
              | .running _ => some .pop
              | .done (some node) => some (.receive node)
              | .done none => some (.stop false) }
  | some (.receive node) =>
      let state := { state with
        live := release state.live (some node)
        deleted := state.deleted ++ [node] }
      match state.self node with
      | some command =>
          some { state with
            executed := state.executed ++ [command]
            callback := none }
      | none => some { state with callback := some (.stop true) }
  | some (.stop null) =>
      some (asyncStop { state with
        callback := none
        stoppedByNull := state.stoppedByNull || null })

def step (state : State Node Sender Command) :
    Label Node Sender Command → Option (State Node Sender Command)
  | .call sender node command => callSend state sender node command
  | .send sender => senderStep state sender
  | .dispatch => dispatch state
  | .callback => callbackStep state

/-- A queue just constructed and started. -/
def State.initial (heap : NodePtr Node → Option (NodePtr Node))
    (self : NodePtr Node → Option Command) : State Node Sender Command where
  queue := .initial heap
  sender := fun _ => none
  callback := none
  self := self
  live := fun _ => false
  active := true
  pending := false
  signals := 0
  stoppedByNull := false
  executed := []
  deleted := []

def system (Node Sender Command : Type*) [DecidableEq Node]
    [DecidableEq Sender] :
    TransitionSystem (State Node Sender Command) (Label Node Sender Command) :=
  .ofStep (fun state => ∃ heap self, state = .initial heap self) step

/-! ## What a step can do -/

variable {state next : State Node Sender Command}

theorem callSend_cases {sender : Sender} {node : Node}
    {command : Option Command}
    (hstep : callSend state sender node command = some next) :
    state.sender sender = none ∧ state.live node = false ∧
      callPush state.queue sender node = some next.queue ∧
      next = { state with
        queue := next.queue
        sender := Function.update state.sender sender (some (.push command))
        self := Function.update state.self (.client node) command
        live := Function.update state.live node true } := by
  obtain ⟨⟨hidle, hlive⟩, hmap⟩ := Option.ite_none_right_eq_some.mp hstep
  obtain ⟨queue, hpush, rfl⟩ := Option.map_eq_some_iff.mp hmap
  exact ⟨hidle, hlive, hpush, rfl⟩

/-- A thread takes a step of `push`, behind which it may return, or signals. -/
theorem senderStep_cases {sender : Sender}
    (hstep : senderStep state sender = some next) :
    (∃ command, state.sender sender = some (.push command) ∧
        producerStep state.queue sender = some next.queue ∧
        next = { state with
          queue := next.queue
          sender := match next.queue.producer sender with
            | some _ => state.sender
            | none =>
                Function.update state.sender sender (afterPush command) }) ∨
      (state.sender sender = some .signal ∧
        next = asyncSend { state with
          sender := Function.update state.sender sender none }) := by
  cases hplace : state.sender sender with
  | none => simp [senderStep, hplace] at hstep
  | some place =>
      cases place with
      | push command =>
          simp only [senderStep, hplace] at hstep
          obtain ⟨queue, hpush, rfl⟩ := Option.map_eq_some_iff.mp hstep
          exact .inl ⟨command, rfl, hpush, rfl⟩
      | signal =>
          simp only [senderStep, hplace, Option.some.injEq] at hstep
          exact .inr ⟨rfl, hstep.symm⟩

omit [DecidableEq Node] [DecidableEq Sender] in
theorem dispatch_cases (hstep : dispatch state = some next) :
    state.active = true ∧ state.callback = none ∧
      callPop state.queue = some next.queue ∧
      next = { state with
        queue := next.queue, pending := false, callback := some .pop } := by
  obtain ⟨⟨hactive, hidle⟩, hmap⟩ := Option.ite_none_right_eq_some.mp hstep
  obtain ⟨queue, hpop, rfl⟩ := Option.map_eq_some_iff.mp hmap
  exact ⟨hactive, hidle, hpop, rfl⟩

/-- Where the callback goes when its `pop` returns. -/
def afterPop : Option (NodePtr Node) → CallbackPc Node
  | some node => .receive node
  | none => .stop false

omit [DecidableEq Sender] in
/-- The callback takes a step inside `pop`, returns from it, executes the
command of its node, deletes a null message, or stops the watcher. -/
theorem callbackStep_cases (hstep : callbackStep state = some next) :
    (∃ pc memory pc', state.callback = some .pop ∧
        state.queue.consumer = some pc ∧
        popStep state.queue.memory pc = (memory, .running pc') ∧
        next = { state with
          queue := { state.queue with memory, consumer := some pc' } }) ∨
      (∃ pc memory result, state.callback = some .pop ∧
        state.queue.consumer = some pc ∧
        popStep state.queue.memory pc = (memory, .done result) ∧
        next = { state with
          queue := { state.queue with
            memory
            consumer := none
            returned := state.queue.returned ++ result.toList
            inUse := release state.queue.inUse result }
          callback := some (afterPop result) }) ∨
      (∃ node command, state.callback = some (.receive node) ∧
        state.self node = some command ∧
        next = { state with
          live := release state.live (some node)
          deleted := state.deleted ++ [node]
          executed := state.executed ++ [command]
          callback := none }) ∨
      (∃ node, state.callback = some (.receive node) ∧
        state.self node = none ∧
        next = { state with
          live := release state.live (some node)
          deleted := state.deleted ++ [node]
          callback := some (.stop true) }) ∨
      ∃ null, state.callback = some (.stop null) ∧
        next = asyncStop { state with
          callback := none
          stoppedByNull := state.stoppedByNull || null } := by
  cases hplace : state.callback with
  | none => simp [callbackStep, hplace] at hstep
  | some place =>
      cases place with
      | pop =>
          simp only [callbackStep, hplace] at hstep
          obtain ⟨pc, hpc, hmap⟩ := Option.bind_eq_some_iff.mp hstep
          obtain ⟨queue, hpop, rfl⟩ := Option.map_eq_some_iff.mp hmap
          rcases consumerStep_cases hpop with
            ⟨from_, memory, pc', hfrom, hresult, rfl⟩ |
            ⟨from_, memory, result, hfrom, hresult, rfl⟩
          all_goals
            obtain rfl : pc = from_ := Option.some.inj (hpc.symm.trans hfrom)
          · refine .inl ⟨pc, memory, pc', rfl, hpc, hresult, ?_⟩
            simp only [hresult, ← hplace]
          · refine .inr (.inl ⟨pc, memory, result, rfl, hpc, hresult, ?_⟩)
            cases result <;> simp only [hresult, afterPop]
      | receive node =>
          simp only [callbackStep, hplace] at hstep
          split at hstep
          case h_1 command hself =>
            cases hstep
            exact .inr (.inr (.inl ⟨node, command, rfl, hself, rfl⟩))
          case h_2 hself =>
            cases hstep
            exact .inr (.inr (.inr (.inl ⟨node, rfl, hself, rfl⟩)))
      | stop null =>
          simp only [callbackStep, hplace, Option.some.injEq] at hstep
          exact .inr (.inr (.inr (.inr ⟨null, rfl, hstep.symm⟩)))

end Sensor.AsyncQueue
