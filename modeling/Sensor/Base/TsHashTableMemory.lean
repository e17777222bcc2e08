import Mathlib.Data.Finmap
import Sensor.Base.TsHashTable
import Sensor.Core.HeapForest
import Sensor.Core.LockedObject

/-!
# The hash table in memory

The buckets of the table lie in memory and link to each other, and threads
call the table at any time.  Every operation but `getSize` takes the lock, for
reading in `get` and `contains` and for writing in the others, and walks the
chains bucket by bucket.  One step here is one turn of a loop or one statement
between two loops.  An access to a bucket that is not allocated and an index
outside the array have no step.
-/

namespace Sensor.TsHashTable

/-- `new` hands out an address that is not in use. -/
structure Allocator where
  malloc : Finset ℕ → ℕ
  fresh : ∀ used, malloc used ∉ used

/-- The allocated buckets and the members of the object. -/
structure Memory (Key Value : Type*) where
  heap : Finmap fun _ : ℕ => HeapCell ℕ (Bucket Key Value)
  table : ℕ → Option ℕ
  capacity : ℕ
  length : ℕ

/-- A request to the table. -/
inductive Request (Key Value : Type*) where
  | call (call : Call Key Value)
  | getSize

/-- What a request returns: the result and the value stored at `value`, or the
size. -/
inductive Answer (Value : Type*) where
  | call (found : Bool) (val : Option Value)
  | size (count : ℕ)
deriving DecidableEq

/-- Where an operation is inside the lock, with its local variables. -/
inductive Pc (Key Value : Type*) where
  /-- The operation starts. -/
  | start (call : Call Key Value)
  /-- The loop of `get_bucket`. -/
  | finding (call : Call Key Value) (hash : BitVec 32) (bucket : Option ℕ)
  /-- `get_bucket` returned a bucket. -/
  | found (call : Call Key Value) (bucket : ℕ)
  /-- The loop of `steal_bucket`. -/
  | unlinking (call : Call Key Value) (hash : BitVec 32)
      (previous bucket : Option ℕ)
  /-- `steal_bucket` returned a bucket. -/
  | taken (call : Call Key Value) (bucket : ℕ)
  /-- `delete bucket`. -/
  | deleting (bucket : ℕ) (val : Option Value)
  /-- `capacity--`. -/
  | uncounting (val : Option Value)
  /-- The outer loop of `expand_map`, which `add` called. -/
  | expanding (key : Key) (val : Value) (newData : ℕ → Option ℕ) (i : ℕ)
  /-- The inner loop of `expand_map`. -/
  | relinking (key : Key) (val : Value) (newData : ℕ → Option ℕ) (i : ℕ)
      (b : Option ℕ)
  /-- `add` computes the index. -/
  | hashing (key : Key) (val : Value)
  /-- The loop of `add`. -/
  | scanning (key : Key) (val : Value) (hash : BitVec 32) (index : ℕ)
      (found : Bool) (b : Option ℕ)
  /-- `add` found no bucket. -/
  | linking (key : Key) (val : Value) (hash : BitVec 32) (index : ℕ)
  /-- `capacity++`. -/
  | counting

variable {Key Value : Type*}

namespace Memory

/-- The constructor. -/
def new : Memory Key Value where
  heap := ∅
  table := fun _ => none
  capacity := 0
  length := 16

/-- The bucket at an address. -/
def read (memory : Memory Key Value) (bucket : ℕ) :
    Option (HeapCell ℕ (Bucket Key Value)) :=
  memory.heap.lookup bucket

def write (memory : Memory Key Value) (bucket : ℕ)
    (cell : HeapCell ℕ (Bucket Key Value)) : Memory Key Value :=
  { memory with heap := memory.heap.insert bucket cell }

def delete (memory : Memory Key Value) (bucket : ℕ) : Memory Key Value :=
  { memory with heap := memory.heap.erase bucket }

/-- `table[index]`. -/
def entry (memory : Memory Key Value) (index : ℕ) : Option (Option ℕ) :=
  if index < memory.length then some (memory.table index) else none

/-- `table[index] = bucket`. -/
def setEntry (memory : Memory Key Value) (index : ℕ) (bucket : Option ℕ) :
    Option (Memory Key Value) :=
  if index < memory.length then
    some { memory with table := Function.update memory.table index bucket }
  else none

/-- `(float)capacity / (float)length >= 0.75`. -/
def isLoaded (memory : Memory Key Value) : Bool :=
  3 * SizeT.toFloat memory.length ≤ 4 * SizeT.toFloat memory.capacity

end Memory

section Body

variable (keys : KeyOps Key) (allocator : Allocator)

/-- The next step of an operation inside the lock. -/
def body (memory : Memory Key Value) : Pc Key Value →
    Option (Memory Key Value × StepResult (Pc Key Value) (Answer Value))
  | .start call =>
      let hash := hashOf keys call.key
      let entry := memory.entry (getPlace memory.length hash)
      match call with
      | .add key val =>
          if memory.isLoaded then
            some (memory, .running (.expanding key val (fun _ => none) 0))
          else some (memory, .running (.hashing key val))
      | .remove _ => entry.map fun bucket =>
          (memory, .running (.unlinking call hash none bucket))
      | .steal _ => entry.map fun bucket =>
          (memory, .running (.unlinking call hash none bucket))
      | _ => entry.map fun bucket =>
          (memory, .running (.finding call hash bucket))
  | .finding _ _ none => some (memory, .done (.call false none))
  | .finding call hash (some bucket) =>
      (memory.read bucket).map fun cell =>
        if isBucket keys hash call.key cell.val then
          (memory, .running (.found call bucket))
        else (memory, .running (.finding call hash cell.next))
  | .found call bucket =>
      match call with
      | .get _ => (memory.read bucket).map fun cell =>
          (memory, .done (.call true (some cell.val.val)))
      | .replace _ val => (memory.read bucket).map fun cell =>
          (memory.write bucket { cell with val := { cell.val with val := val } },
            .done (.call true none))
      | _ => some (memory, .done (.call true none))
  | .unlinking _ _ _ none => some (memory, .done (.call false none))
  | .unlinking call hash previous (some bucket) =>
      (memory.read bucket).bind fun cell =>
        if isBucket keys hash call.key cell.val then
          match previous with
          | some previous => (memory.read previous).map fun before =>
              (memory.write previous { before with next := cell.next },
                .running (.taken call bucket))
          | none =>
              let index := getPlace memory.length hash
              (memory.setEntry index cell.next).map fun memory =>
                (memory, .running (.taken call bucket))
        else
          some (memory, .running (.unlinking call hash (some bucket) cell.next))
  | .taken call bucket =>
      match call with
      | .steal _ => (memory.read bucket).map fun cell =>
          (memory, .running (.deleting bucket (some cell.val.val)))
      | _ => some (memory, .running (.deleting bucket none))
  | .deleting bucket val =>
      (memory.read bucket).map fun _ =>
        (memory.delete bucket, .running (.uncounting val))
  | .uncounting val =>
      some ({ memory with capacity := memory.capacity - 1 },
        .done (.call true val))
  | .expanding key val newData i =>
      if i < memory.length then
        some (memory, .running (.relinking key val newData i (memory.table i)))
      else
        some ({ memory with table := newData, length := 2 * memory.length },
          .running (.hashing key val))
  | .relinking key val newData i none =>
      some (memory, .running (.expanding key val newData (i + 1)))
  | .relinking key val newData i (some b) =>
      (memory.read b).bind fun cell =>
        let newLen := 2 * memory.length
        let j := SizeT.toInt (getPlace newLen cell.val.hash)
        if 0 ≤ j ∧ j < newLen then
          some (memory.write b { cell with next := newData j.toNat },
            .running (.relinking key val
              (Function.update newData j.toNat (some b)) i cell.next))
        else none
  | .hashing key val =>
      let hash := hashOf keys key
      let index := getPlace memory.length hash
      (memory.entry index).map fun b =>
        (memory, .running (.scanning key val hash index false b))
  | .scanning key val hash index found none =>
      if found then some (memory, .done (.call true none))
      else some (memory, .running (.linking key val hash index))
  | .scanning key val hash index found (some b) =>
      (memory.read b).map fun cell =>
        if isBucket keys hash key cell.val then
          (memory.write b { cell with val := { cell.val with val := val } },
            .running (.scanning key val hash index true cell.next))
        else (memory, .running (.scanning key val hash index found cell.next))
  | .linking key val hash index =>
      let bucket := allocator.malloc memory.heap.keys
      (memory.entry index).bind fun next =>
        let cell := ⟨⟨hash, key, val⟩, next⟩
        ((memory.write bucket cell).setEntry index (some bucket)).map
          fun memory => (memory, .running .counting)
  | .counting =>
      some ({ memory with capacity := memory.capacity + 1 },
        .done (.call false none))

/-- How an operation takes the lock. -/
def Request.mode : Request Key Value → LockMode
  | .call (.get _) => .shared
  | .call (.contains _) => .shared
  | .call _ => .exclusive
  | .getSize => .unlocked

/-- The table as an object behind its lock.  `getSize` has no step inside the
lock. -/
def locked : LockedObject (Memory Key Value) (Request Key Value)
    (Pc Key Value) (Answer Value) where
  mode := Request.mode
  enter
    | .call call => .start call
    | .getSize => .counting
  body := body keys allocator
  peek memory _ := .size memory.capacity

end Body

end Sensor.TsHashTable
