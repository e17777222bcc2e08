import Mathlib.Data.Int.Order.Basic
import Sensor.Core.TransitionSystem

/-!
# Socket values

A `SocketMain` is a `Socket` whose destructor closes its descriptor.  The class
declares no copy constructor and no assignment, so the compiler adds those that
copy `m_fd`; the value a function returns is constructed where its caller has
it.  The program makes, copies, assigns and destroys such values under names,
while the rest of it opens and closes other descriptors.
-/

namespace Sensor.SocketMain

/-- What a number stands for: the descriptor of a call of `::socket`, with the
serial number of the call, or one the program got elsewhere. -/
inductive Descriptor where
  | socket (serial : ℕ)
  | other
  deriving DecidableEq

/-- The field of the class; `holds` is bookkeeping: the descriptor the value
was made with. -/
structure Value where
  m_fd : ℤ
  holds : Option Descriptor

/-- The values that live, the descriptors that are open, how often `::socket`
returned one, and, as bookkeeping, how often destructors closed one. -/
structure State (Name : Type*) where
  values : Name → Option Value
  table : ℤ → Option Descriptor
  sockets : ℕ
  closed : Descriptor → ℕ

/-- What `fromText` meets: `getaddrinfo` fails, or `::socket` returns a number,
which is -1 if it fails, and `EndpointAddress` takes the address or throws. -/
inductive TextResult where
  | unresolved
  | resolved (sock : ℤ) (supported : Bool)

/-- An operation on the values, or one of the rest of the program. -/
inductive Label (Name : Type*) where
  | default (name : Name)
  | fromDescriptor (name : Name) (sock : ℤ)
  | createFromText (name : Name) (result : TextResult)
  | copy (name source : Name)
  | assign (name source : Name)
  | destroy (name : Name)
  | otherOpen (fd : ℤ)
  | otherClose (fd : ℤ)

variable {Name : Type*} [DecidableEq Name]

namespace State

/-- The constructor of a value under a name that is free. -/
def construct (state : State Name) (name : Name) (value : Value) :
    Option (State Name) :=
  match state.values name with
  | some _ => none
  | none => some { state with
      values := Function.update state.values name (some value) }

/-- `::socket`, which returns -1 or a number that is not in use, and the value
made of what it returned. -/
def socket (state : State Name) (sock : ℤ) : Option (State Name × Value) :=
  if sock = -1 then some (state, ⟨sock, none⟩)
  else if 0 ≤ sock ∧ state.table sock = none then
    some ({ state with
      table := Function.update state.table sock (some (.socket state.sockets))
      sockets := state.sockets + 1 }, ⟨sock, some (.socket state.sockets)⟩)
  else none

/-- `createFromText`; a value is constructed unless `fromText` throws. -/
def createFromText (state : State Name) (name : Name) :
    TextResult → Option (State Name)
  | .unresolved => some state
  | .resolved sock supported =>
      (state.socket sock).bind fun (state, value) =>
        if supported then state.construct name value else some state

/-- `::close`. -/
def close (state : State Name) (fd : ℤ) : State Name :=
  match state.table fd with
  | none => state
  | some descriptor => { state with
      table := Function.update state.table fd none
      closed := Function.update state.closed descriptor
        (state.closed descriptor + 1) }

/-- The destructor. -/
def destroy (state : State Name) (name : Name) : Option (State Name) :=
  (state.values name).map fun value => { state.close value.m_fd with
    values := Function.update state.values name none }

/-- The assignment. -/
def assign (state : State Name) (name source : Name) : Option (State Name) :=
  (state.values name).bind fun _ => (state.values source).map fun value =>
    { state with values := Function.update state.values name (some value) }

end State

/-- The state after an operation, or `none` where it is not possible. -/
def step (state : State Name) : Label Name → Option (State Name)
  | .default name => state.construct name ⟨0, none⟩
  | .fromDescriptor name sock =>
      state.construct name ⟨sock, state.table sock⟩
  | .createFromText name result => state.createFromText name result
  | .copy name source => (state.values source).bind (state.construct name)
  | .assign name source => state.assign name source
  | .destroy name => state.destroy name
  | .otherOpen fd =>
      if 0 ≤ fd ∧ state.table fd = none then
        some { state with
          table := Function.update state.table fd (some .other) }
      else none
  | .otherClose fd =>
      if state.table fd = some .other then
        some { state with table := Function.update state.table fd none }
      else none

/-- A program starts without values, among descriptors it did not obtain. -/
structure IsInitial (state : State Name) : Prop where
  values : ∀ name, state.values name = none
  table : ∀ fd descriptor, state.table fd = some descriptor →
    0 ≤ fd ∧ descriptor = .other
  sockets : state.sockets = 0
  closed : ∀ descriptor, state.closed descriptor = 0

def system (Name : Type*) [DecidableEq Name] :
    TransitionSystem (State Name) (Label Name) :=
  .ofStep IsInitial step

/-- The operations of `TcpAcceptor::init` on its member `sock` and the value
`createFromText` returns, where `::socket` returned `fd`. -/
def acceptorInit (sock returned : Name) (fd : ℤ) : List (Label Name) :=
  [.createFromText returned (.resolved fd true), .assign sock returned,
    .destroy returned]

end Sensor.SocketMain
