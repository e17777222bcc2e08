import Sensor.Base.SizeT
import Sensor.Core.Region

/-!
# The circular byte buffer

`CircularBuffer` keeps bytes in an allocation of `capacity` cells, from `begin`
to `end` and past the end of the allocation where `end` lies before `begin`.
Its fields and lengths are `size_t` values; a copy that leaves the allocation
is undefined behaviour, for which the operations return `none`.
-/

namespace Sensor

open Region

/-- The fields of the class; `end_` is the field `end`. -/
structure CircularBuffer (Byte : Type*) where
  begin : ℕ
  end_ : ℕ
  size : ℕ
  capacity : ℕ
  buffer : ℕ → Byte

namespace CircularBuffer

variable {Byte : Type*}

/-- The constructor; the allocation holds whatever the `heap` had there. -/
def new (capacity : ℕ) (heap : ℕ → Byte) : CircularBuffer Byte where
  begin := 0
  end_ := 0
  size := 0
  capacity := capacity
  buffer := heap

def distance (from_ to_ size : ℕ) : ℕ :=
  if from_ < to_ then SizeT.sub to_ from_
  else SizeT.sub size (SizeT.add from_ to_)

def contDistance (from_ to_ size : ℕ) : ℕ :=
  if from_ < to_ then SizeT.sub to_ from_
  else SizeT.sub size from_

def hasfilled (self : CircularBuffer Byte) : ℕ :=
  if self.begin ≠ self.end_ then
    distance self.begin self.end_ self.capacity
  else 0

def hasfree (self : CircularBuffer Byte) : ℕ :=
  if self.begin ≠ self.end_ then
    distance self.end_ self.begin self.capacity
  else self.capacity

/-- `memcpy` into the allocation. -/
def memcpyTo (self : CircularBuffer Byte) (offset : ℕ) (data : List Byte) :
    Option (CircularBuffer Byte) :=
  if offset + data.length ≤ self.capacity then
    some { self with buffer := write self.buffer offset data }
  else none

/-- `memcpy` out of the allocation. -/
def memcpyFrom (self : CircularBuffer Byte) (offset length : ℕ) :
    Option (List Byte) :=
  if offset + length ≤ self.capacity then
    some (read self.buffer offset length)
  else none

/-- `end += done; end %= capacity; size += done; return done`. -/
def extend (self : CircularBuffer Byte) (done : ℕ) :
    CircularBuffer Byte × ℤ :=
  ({ self with
    end_ := SizeT.add self.end_ done % self.capacity
    size := SizeT.add self.size done }, SizeT.toInt done)

/-- `add(data, sz)` with the `sz` bytes at `data`. -/
def add (self : CircularBuffer Byte) (data : List Byte) :
    Option (CircularBuffer Byte × ℤ) :=
  let free := self.hasfree
  if free = 0 then
    some (self, 0)
  else
    let sz := if data.length > free then free else data.length
    let contLen := contDistance self.end_ self.begin self.capacity
    let done := min contLen sz
    (self.memcpyTo self.end_ (data.take done)).bind fun self =>
      if done < sz then
        let left := sz - done
        (self.memcpyTo 0 ((data.drop done).take left)).map fun self =>
          self.extend (done + left)
      else some (self.extend done)

/-- `pick(data, sz)`: the bytes stored at `data` and the result. -/
def pick (self : CircularBuffer Byte) (sz : ℕ) : Option (List Byte × ℤ) :=
  let filled := self.hasfilled
  if filled = 0 then
    some ([], 0)
  else
    let sz := if sz > filled then filled else sz
    let contLen := contDistance self.begin self.end_ self.capacity
    let done := min contLen sz
    (self.memcpyFrom self.begin done).bind fun first =>
      if done < sz then
        let left := sz - done
        (self.memcpyFrom 0 left).map fun second =>
          (first ++ second, SizeT.toInt (done + left))
      else some (first, SizeT.toInt done)

/-- `if (done) { begin += done; begin %= capacity; size -= done; }`. -/
def consume (self : CircularBuffer Byte) (done : ℕ) : CircularBuffer Byte :=
  if done ≠ 0 then
    { self with
      begin := SizeT.add self.begin done % self.capacity
      size := SizeT.sub self.size done }
  else self

/-- `get(data, sz)`: the buffer after it, the bytes stored at `data` and the
result. -/
def get (self : CircularBuffer Byte) (sz : ℕ) :
    Option (CircularBuffer Byte × List Byte × ℤ) :=
  (self.pick sz).map fun (bytes, result) =>
    let done := SizeT.ofInt result
    (self.consume done, bytes, SizeT.toInt done)

/-- A call of one of the three operations. -/
inductive Call (Byte : Type*) where
  | add (data : List Byte)
  | get (sz : ℕ)
  | pick (sz : ℕ)

/-- The buffer after a call, the result and the bytes handed out. -/
def call (self : CircularBuffer Byte) :
    Call Byte → Option (CircularBuffer Byte × ℤ × List Byte)
  | .add data => (self.add data).map fun (next, result) => (next, result, [])
  | .get sz => (self.get sz).map fun (next, bytes, result) =>
      (next, result, bytes)
  | .pick sz => (self.pick sz).map fun (bytes, result) => (self, result, bytes)

/-! ## The regions for copies from outside -/

/-- `watch_in(data)`: the length returned and, where `*data` is set, the offset
it points at. -/
def watchIn (self : CircularBuffer Byte) : ℕ × Option ℕ :=
  let contDist := contDistance self.begin self.end_ self.capacity
  (contDist, if contDist ≠ 0 then some self.begin else none)

/-- `watch_out(data)`. -/
def watchOut (self : CircularBuffer Byte) : ℕ × Option ℕ :=
  let contDist := contDistance self.end_ self.begin self.capacity
  (contDist, if contDist ≠ 0 then some self.end_ else none)

def flushIn (self : CircularBuffer Byte) (sz : ℕ) : CircularBuffer Byte :=
  if sz = 0 ∨ sz ≥ self.size then
    { self with begin := self.end_ }
  else
    let cont := contDistance self.begin self.end_ self.capacity
    if sz > cont then { self with begin := SizeT.sub sz cont }
    else { self with begin := SizeT.add self.begin sz }

/-- `flush_out(sz)`, which moves `begin` as `flush_in` does. -/
def flushOut (self : CircularBuffer Byte) (sz : ℕ) : CircularBuffer Byte :=
  if sz = 0 ∨ sz ≥ self.size then
    { self with begin := self.end_ }
  else
    let cont := contDistance self.begin self.end_ self.capacity
    if sz > cont then { self with begin := SizeT.sub sz cont }
    else { self with begin := SizeT.add self.begin sz }

/-- A call of one of the operations of the class. -/
inductive Op (Byte : Type*) where
  | call (call : Call Byte)
  | watchIn
  | watchOut
  | flushIn (sz : ℕ)
  | flushOut (sz : ℕ)

/-- The buffer after an operation. -/
def after (self : CircularBuffer Byte) : Op Byte → Option (CircularBuffer Byte)
  | .call call => (self.call call).map Prod.fst
  | .watchIn => some self
  | .watchOut => some self
  | .flushIn sz => some (self.flushIn sz)
  | .flushOut sz => some (self.flushOut sz)

end CircularBuffer

end Sensor
