import Sensor.Core.ReadersWriterLock

/-!
# Objects behind a readers-writer lock

Any number of threads call the operations of one object.  An operation takes
the lock of the object, shared or exclusive, runs in steps of its own and
releases the lock; some operations take no lock and read the object in one
step.  This file describes such an object, the atomic object it should look
like, whose operations happen in one step, and what the code of the operations
has to satisfy for that.
-/

namespace Sensor

/-! ## The object and its threads -/

/-- The code of an object: `enter` is where an operation starts inside the lock
and `body` its next step there, or `none` where that goes outside the memory of
the object.  `peek` is what an operation without the lock reads. -/
structure LockedObject (Object Op Pc Result : Type*) where
  mode : Op → LockMode
  enter : Op → Pc
  body : Object → Pc → Option (Object × StepResult Pc Result)
  peek : Object → Op → Result

/-- What the callers of an object see. -/
inductive CallEvent (Thread Op Result : Type*) where
  | called (thread : Thread) (op : Op)
  | returned (thread : Thread) (result : Result)

namespace LockedObject

variable {Object Op Pc Result Thread Model : Type*}

/-- Where a thread is in a call. -/
inductive Place (Op Pc Result : Type*) where
  | called (op : Op)
  | working (op : Op) (pc : Pc)
  | releasing (op : Op) (result : Result)
  | returning (result : Result)

/-- Where a step inside the lock leads. -/
def Place.after (op : Op) : StepResult Pc Result → Place Op Pc Result
  | .running pc => .working op pc
  | .done result => .releasing op result

structure State (Object Op Pc Result Thread : Type*) where
  object : Object
  lock : ReadersWriterLock
  place : Thread → Option (Place Op Pc Result)
  history : List (CallEvent Thread Op Result)

inductive Label (Op Thread : Type*) where
  | call (thread : Thread) (op : Op)
  | acquire (thread : Thread)
  | work (thread : Thread)
  | release (thread : Thread)
  | leave (thread : Thread)

def initial (object : Object) : State Object Op Pc Result Thread where
  object := object
  lock := .free
  place := fun _ => none
  history := []

section Step

variable [DecidableEq Thread] (code : LockedObject Object Op Pc Result)

/-- One step of one thread. -/
def systemStep (state : State Object Op Pc Result Thread) :
    Label Op Thread → Option (State Object Op Pc Result Thread)
  | .call thread op =>
      match state.place thread with
      | none => some { state with
          place := Function.update state.place thread (some (.called op))
          history := state.history ++ [.called thread op] }
      | some _ => none
  | .acquire thread =>
      match state.place thread with
      | some (.called op) =>
          (state.lock.take (code.mode op)).map fun lock => { state with
            lock := lock
            place := Function.update state.place thread
              (some (.working op (code.enter op))) }
      | _ => none
  | .work thread =>
      match state.place thread with
      | some (.called op) =>
          if code.mode op = .unlocked then
            some { state with
              place := Function.update state.place thread
                (some (.returning (code.peek state.object op))) }
          else none
      | some (.working op pc) =>
          (code.body state.object pc).map fun (object, result) => { state with
            object := object
            place := Function.update state.place thread
              (some (.after op result)) }
      | _ => none
  | .release thread =>
      match state.place thread with
      | some (.releasing _ result) => some { state with
          lock := state.lock.release
          place := Function.update state.place thread
            (some (.returning result)) }
      | _ => none
  | .leave thread =>
      match state.place thread with
      | some (.returning result) => some { state with
          place := Function.update state.place thread none
          history := state.history ++ [.returned thread result] }
      | _ => none

/-- The concurrent object, starting from `object` with no call under way. -/
def system (object : Object) :
    TransitionSystem (State Object Op Pc Result Thread) (Label Op Thread) :=
  .ofStep (· = initial object) code.systemStep

end Step

/-! ## The atomic object -/

/-- Where a thread is in a call of the atomic object. -/
inductive Call (Op Result : Type*) where
  | pending (op : Op)
  | answered (result : Result)

structure AtomicState (Model Op Result Thread : Type*) where
  model : Model
  call : Thread → Option (Call Op Result)
  history : List (CallEvent Thread Op Result)

inductive AtomicLabel (Op Thread : Type*) where
  | call (thread : Thread) (op : Op)
  | commit (thread : Thread)
  | leave (thread : Thread)

def atomicInitial (model : Model) : AtomicState Model Op Result Thread where
  model := model
  call := fun _ => none
  history := []

section Atomic

variable [DecidableEq Thread] (spec : Op → Model → Model × Result)

/-- An operation of the atomic object happens in one step between its call and
its return. -/
def atomicStep (state : AtomicState Model Op Result Thread) :
    AtomicLabel Op Thread → Option (AtomicState Model Op Result Thread)
  | .call thread op =>
      match state.call thread with
      | none => some { state with
          call := Function.update state.call thread (some (.pending op))
          history := state.history ++ [.called thread op] }
      | some _ => none
  | .commit thread =>
      match state.call thread with
      | some (.pending op) => some { state with
          model := (spec op state.model).1
          call := Function.update state.call thread
            (some (.answered (spec op state.model).2)) }
      | _ => none
  | .leave thread =>
      match state.call thread with
      | some (.answered result) => some { state with
          call := Function.update state.call thread none
          history := state.history ++ [.returned thread result] }
      | _ => none

def atomicSystem (model : Model) :
    TransitionSystem (AtomicState Model Op Result Thread)
      (AtomicLabel Op Thread) :=
  .ofStep (· = atomicInitial model) (atomicStep spec)

end Atomic

/-! ## What an operation does inside the lock -/

/-- Inside the lock an operation leads from an object to an object and a
result, through objects that are kept as `Keeps` says. -/
inductive Executes (code : LockedObject Object Op Pc Result)
    (Keeps : Object → Prop) : Object → Pc → Object → Result → Prop
  | done {object final : Object} {pc : Pc} {result : Result}
      (hbody : code.body object pc = some (final, .done result)) :
      Executes code Keeps object pc final result
  | running {object middle final : Object} {pc pc' : Pc} {result : Result}
      (hbody : code.body object pc = some (middle, .running pc'))
      (hkeeps : Keeps middle)
      (hrest : Executes code Keeps middle pc' final result) :
      Executes code Keeps object pc final result

/-- From `pc` an operation returns the result and leaves an object as `Post`
says. -/
def Reaches (code : LockedObject Object Op Pc Result) (Keeps Post : Object → Prop)
    (object : Object) (pc : Pc) (result : Result) : Prop :=
  ∃ final, Post final ∧ code.Executes Keeps object pc final result

namespace Reaches

variable {code : LockedObject Object Op Pc Result}
variable {Keeps Post : Object → Prop}
variable {object middle final : Object} {pc pc' : Pc} {result : Result}

theorem done (hbody : code.body object pc = some (final, .done result))
    (hpost : Post final) : code.Reaches Keeps Post object pc result :=
  ⟨final, hpost, .done hbody⟩

theorem step (hbody : code.body object pc = some (middle, .running pc'))
    (hkeeps : Keeps middle)
    (hrest : code.Reaches Keeps Post middle pc' result) :
    code.Reaches Keeps Post object pc result := by
  obtain ⟨final, hpost, hexecutes⟩ := hrest
  exact ⟨final, hpost, .running hbody hkeeps hexecutes⟩

end Reaches

/-- The code implements the specification: `Represents` is what holds of an
object while no operation holds the lock exclusively, and `Shows` what holds
of it for the operations without the lock until the operation that holds it is
done. -/
structure Implements (code : LockedObject Object Op Pc Result)
    (spec : Op → Model → Model × Result)
    (Represents Shows : Object → Model → Prop) : Prop where
  shows : ∀ object model, Represents object model → Shows object model
  peek : ∀ op object model, code.mode op = .unlocked → Shows object model →
    spec op model = (model, code.peek object op)
  shared : ∀ op object model, code.mode op = .shared →
    Represents object model → ∃ result, spec op model = (model, result) ∧
      code.Executes (· = object) object (code.enter op) object result
  exclusive : ∀ op object model, code.mode op = .exclusive →
    Represents object model → ∃ final,
      Represents final (spec op model).1 ∧
        code.Executes (Shows · model) object (code.enter op) final
          (spec op model).2

end LockedObject

end Sensor
