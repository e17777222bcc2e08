import Sensor.Core.TransitionSystem

/-!
# Futures and promises

The futures of one promise share a `State`: a mutex, a condition variable and a
pointer to the result.  `wait` and `wait_for` test the pointer under the mutex
and sleep on the condition variable; `set_value` stores the value, swaps the
pointer under the mutex and wakes all sleepers after it unlocked.  A sleeper
may also wake for no reason or because its time is over.
-/

namespace Sensor.Future

/-- The methods of `State` a thread waits in. -/
inductive WaitCall where
  | wait
  | waitFor
  deriving DecidableEq

/-- What a thread is to return after it unlocked: the reference to the result
in `wait`, `success` in `wait_for`. -/
inductive Answer where
  | result
  | success (success : Bool)
  deriving DecidableEq

/-- Where a thread is inside `wait` or `wait_for`: at the lock, at the test of
`isReady`, at the call of the condition wait, blocked in it, about to lock the
mutex inside it, at the second test of `wait_for`, at the unlock, at the return
of `*result`. -/
inductive WaiterPc where
  | lock (call : WaitCall)
  | test (call : WaitCall)
  | condWait (call : WaitCall)
  | blocked (call : WaitCall)
  | woken (call : WaitCall)
  | retest
  | unlock (answer : Answer)
  | returnResult
  deriving DecidableEq

/-- Where the setter is inside `set_value`. -/
inductive SetterPc (Value : Type*) where
  | idle
  | storeValue (value : Value)
  | lock
  | swap
  | unlock
  | notifyAll
  | finished
  deriving DecidableEq

/-- What a call returned: the value `*result` refers to, or `success`. -/
inductive Returned (Value : Type*) where
  | result (value : Option Value)
  | success (success : Bool)
  deriving DecidableEq

/-- The owner of the mutex. -/
inductive Holder (Waiter : Type*) where
  | waiter (waiter : Waiter)
  | setter
  deriving DecidableEq

/-- The shared state, the threads and what their calls returned.  `object` is
the value in the `Result` the promise allocated, `none` before it is set;
`result` says whether the pointer of the state leads to it; `argument` is the
argument of `set_value`. -/
structure State (Waiter Value : Type*) where
  object : Option Value
  result : Bool
  mutex : Option (Holder Waiter)
  waiter : Waiter → Option WaiterPc
  setter : SetterPc Value
  argument : Option Value
  returned : List (Waiter × Returned Value)

/-- A step: a thread calls `wait` or `wait_for`, takes its next step, or wakes
without a broadcast; the setter calls `set_value` or takes its next step. -/
inductive Label (Waiter Value : Type*) where
  | callWait (waiter : Waiter) (call : WaitCall)
  | wait (waiter : Waiter)
  | wake (waiter : Waiter)
  | callSetValue (value : Value)
  | setValue

variable {Waiter Value : Type*}

def isReady (state : State Waiter Value) : Bool :=
  state.result

/-- `pthread_mutex_lock`, which is not enabled while the mutex is held. -/
def lock (state : State Waiter Value) (holder : Holder Waiter) :
    Option (State Waiter Value) :=
  if state.mutex.isNone then some { state with mutex := some holder } else none

def unlock (state : State Waiter Value) : State Waiter Value :=
  { state with mutex := none }

/-- `*result`: nothing while the pointer is null. -/
def dereference (state : State Waiter Value) : Option Value :=
  if state.result then state.object else none

/-- A thread after a broadcast. -/
def wakePc : WaiterPc → WaiterPc
  | .blocked call => .woken call
  | pc => pc

section Steps

variable [DecidableEq Waiter]

def State.move (state : State Waiter Value) (waiter : Waiter)
    (pc : Option WaiterPc) : State Waiter Value :=
  { state with waiter := Function.update state.waiter waiter pc }

/-- A call ends with what it returns. -/
def State.finish (state : State Waiter Value) (waiter : Waiter)
    (value : Returned Value) : State Waiter Value :=
  { state.move waiter none with
    returned := state.returned ++ [(waiter, value)] }

def callWait (state : State Waiter Value) (waiter : Waiter) (call : WaitCall) :
    Option (State Waiter Value) :=
  match state.waiter waiter with
  | some _ => none
  | none => some (state.move waiter (some (.lock call)))

/-- The next step of a thread from its place. -/
def waitFrom (state : State Waiter Value) (waiter : Waiter) :
    WaiterPc → Option (State Waiter Value)
  | .lock call =>
      (lock state (.waiter waiter)).map fun state =>
        state.move waiter (some (.test call))
  | .test .wait =>
      some (state.move waiter
        (some (if isReady state then .unlock .result else .condWait .wait)))
  | .test .waitFor =>
      some (state.move waiter
        (some (if isReady state then .unlock (.success true)
          else .condWait .waitFor)))
  | .condWait call =>
      some ((unlock state).move waiter (some (.blocked call)))
  | .blocked _ => none
  | .woken call =>
      (lock state (.waiter waiter)).map fun state =>
        state.move waiter (some (match call with
          | .wait => .test .wait
          | .waitFor => .retest))
  | .retest =>
      some (state.move waiter (some (.unlock (.success (isReady state)))))
  | .unlock .result =>
      some ((unlock state).move waiter (some .returnResult))
  | .unlock (.success success) =>
      some ((unlock state).finish waiter (.success success))
  | .returnResult =>
      some (state.finish waiter (.result (dereference state)))

def waitStep (state : State Waiter Value) (waiter : Waiter) :
    Option (State Waiter Value) :=
  (state.waiter waiter).bind (waitFrom state waiter)

/-- A wakeup that no broadcast caused. -/
def wakeStep (state : State Waiter Value) (waiter : Waiter) :
    Option (State Waiter Value) :=
  match state.waiter waiter with
  | some (.blocked call) => some (state.move waiter (some (.woken call)))
  | _ => none

end Steps

def callSetValue (state : State Waiter Value) (value : Value) :
    Option (State Waiter Value) :=
  match state.setter with
  | .idle =>
      some { state with setter := .storeValue value, argument := some value }
  | _ => none

/-- The next step of `set_value` and of the `set_result` it calls. -/
def setValueStep (state : State Waiter Value) : Option (State Waiter Value) :=
  match state.setter with
  | .idle => none
  | .storeValue value =>
      some { state with object := some value, setter := .lock }
  | .lock =>
      (lock state .setter).map fun state => { state with setter := .swap }
  | .swap => some { state with result := true, setter := .unlock }
  | .unlock => some { unlock state with setter := .notifyAll }
  | .notifyAll =>
      some { state with
        waiter := fun waiter => (state.waiter waiter).map wakePc
        setter := .finished }
  | .finished => none

variable [DecidableEq Waiter]

def step (state : State Waiter Value) :
    Label Waiter Value → Option (State Waiter Value)
  | .callWait waiter call => callWait state waiter call
  | .wait waiter => waitStep state waiter
  | .wake waiter => wakeStep state waiter
  | .callSetValue value => callSetValue state value
  | .setValue => setValueStep state

/-- A new promise and its futures. -/
def State.initial : State Waiter Value where
  object := none
  result := false
  mutex := none
  waiter := fun _ => none
  setter := .idle
  argument := none
  returned := []

def system (Waiter Value : Type*) [DecidableEq Waiter] :
    TransitionSystem (State Waiter Value) (Label Waiter Value) :=
  .ofStep (fun state => state = .initial) step

end Sensor.Future
