import Sensor.Core.TransitionSystem

/-!
# The eventcount

`Eventcount` lets one consumer sleep on a semaphore until a producer has
something for it.  The flag `waiting` tells the producers that the consumer is
about to sleep; `out` polls a function, raises the flag, polls again and only
then waits.
-/

namespace Sensor

/-- The two words of the class: the atomic flag and the semaphore's count. -/
structure Eventcount where
  waiting : Bool
  semaphore : ℕ
  deriving DecidableEq

namespace Eventcount

/-- The largest count of a semaphore; a post beyond it fails and is ignored. -/
def semValueMax : ℕ := 2147483647

def new : Eventcount where
  waiting := false
  semaphore := 0

def prepareWait (eventcount : Eventcount) : Eventcount :=
  { eventcount with waiting := true }

def cancelWait (eventcount : Eventcount) : Eventcount :=
  { eventcount with waiting := false }

/-- `sem_wait`, which is not enabled while the count is zero. -/
def commitWait (eventcount : Eventcount) : Option Eventcount :=
  if eventcount.semaphore = 0 then none
  else some { eventcount with semaphore := eventcount.semaphore - 1 }

def semPost (eventcount : Eventcount) : Eventcount :=
  if eventcount.semaphore < semValueMax then
    { eventcount with semaphore := eventcount.semaphore + 1 }
  else eventcount

/-- Where a producer is inside `notify`. -/
inductive NotifyPc where
  | loadWaiting
  | clearWaiting
  | post
  deriving DecidableEq

/-- One step of `notify`; `none` when the call returns. -/
def notifyStep (eventcount : Eventcount) :
    NotifyPc → Eventcount × Option NotifyPc
  | .loadWaiting =>
      (eventcount, if eventcount.waiting then some .clearWaiting else none)
  | .clearWaiting => ({ eventcount with waiting := false }, some .post)
  | .post => (eventcount.semPost, none)

/-- Where the consumer is inside `out(func)`: in the call of `func` the loop
condition tests, in one of the eventcount's operations, or in the call of
`func` between `prepare_wait` and `commit_wait`. -/
inductive OutPc (Func Result : Type*) where
  | poll (pc : Func)
  | prepareWait
  | recheck (pc : Func)
  | cancelWait (result : Result)
  | commitWait
  deriving DecidableEq

variable {Memory Func Result : Type*}

/-- One step of `out(func)`, where `funcStep` is one step of `func` and
`entry` its first place.  A step is not enabled while `sem_wait` blocks. -/
def outStep (funcStep : Memory → Func → Memory × StepResult Func (Option Result))
    (entry : Func) (memory : Memory) (eventcount : Eventcount) :
    OutPc Func Result →
      Option (Memory × Eventcount × StepResult (OutPc Func Result) Result)
  | .poll pc =>
      match funcStep memory pc with
      | (memory, .running pc) => some (memory, eventcount, .running (.poll pc))
      | (memory, .done none) => some (memory, eventcount, .running .prepareWait)
      | (memory, .done (some result)) => some (memory, eventcount, .done result)
  | .prepareWait =>
      some (memory, eventcount.prepareWait, .running (.recheck entry))
  | .recheck pc =>
      match funcStep memory pc with
      | (memory, .running pc) =>
          some (memory, eventcount, .running (.recheck pc))
      | (memory, .done none) => some (memory, eventcount, .running .commitWait)
      | (memory, .done (some result)) =>
          some (memory, eventcount, .running (.cancelWait result))
  | .cancelWait result => some (memory, eventcount.cancelWait, .done result)
  | .commitWait =>
      eventcount.commitWait.map fun eventcount =>
        (memory, eventcount, .running (.poll entry))

end Eventcount

end Sensor
