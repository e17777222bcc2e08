import Mathlib
import Sensor.Core.ByteOrder

/-!
# Building and taking apart byte buffers

The `AddToBuffer` functions store one value behind a cursor and move the
cursor on; the `GetFromBuffer` functions take the values back in the same
order.  Every writer stores through a pointer of its own type and moves the
cursor by a constant of its own.
-/

namespace Sensor.UtilBuffer

open Region ByteOrder

/-- A memory and the place in it that `*bufpointer` points to. -/
structure Buffer where
  memory : ℕ → Byte
  cursor : ℕ

/-! ## The writers -/

def addToBuffer (buffer : Buffer) (data : List Byte) : Buffer where
  memory := write buffer.memory buffer.cursor data
  cursor := buffer.cursor + data.length

def addToBuffer32 (buffer : Buffer) (data : BitVec 32) : Buffer where
  memory := write buffer.memory buffer.cursor (bytes32 (swap32 data))
  cursor := buffer.cursor + 4

def addToBuffer16 (buffer : Buffer) (data : BitVec 16) : Buffer where
  memory := write buffer.memory buffer.cursor (bytes16 (swap16 data))
  cursor := buffer.cursor + 2

def addToBuffer32NoOrder (buffer : Buffer) (data : BitVec 32) : Buffer where
  memory := write buffer.memory buffer.cursor (bytes32 data)
  cursor := buffer.cursor + 4

/-- The value is stored through a pointer to 32 bits. -/
def addToBuffer16NoOrder (buffer : Buffer) (data : BitVec 16) : Buffer where
  memory := write buffer.memory buffer.cursor (bytes32 (data.setWidth 32))
  cursor := buffer.cursor + 2

def addToBuffer8 (buffer : Buffer) (data : Byte) : Buffer where
  memory := write buffer.memory buffer.cursor [data]
  cursor := buffer.cursor + 1

def addToBuffer4 (buffer : Buffer) (data8 data4 : Byte) : Buffer where
  memory := write buffer.memory buffer.cursor
    [(data8 <<< 4) &&& (data4 ||| 0xf0)]
  cursor := buffer.cursor + 1

/-- The cursor stays: the pointer is passed by value. -/
def addToBuffer1 (buffer : Buffer) (data : Byte) (place : ℕ) : Buffer where
  memory := write buffer.memory buffer.cursor [(data &&& 0xfe) <<< place]
  cursor := buffer.cursor

/-! ## The readers -/

def Buffer.advance (buffer : Buffer) (count : ℕ) : Buffer where
  memory := buffer.memory
  cursor := buffer.cursor + count

def getFromBuffer (buffer : Buffer) (ofData : ℕ) : List Byte × Buffer :=
  (read buffer.memory buffer.cursor ofData, buffer.advance ofData)

def getFromBuffer32 (buffer : Buffer) : BitVec 32 × Buffer :=
  (swap32 (load32 buffer.memory buffer.cursor), buffer.advance 4)

def getFromBuffer16 (buffer : Buffer) : BitVec 16 × Buffer :=
  (swap16 (load16 buffer.memory buffer.cursor), buffer.advance 2)

def getFromBuffer32NoOrder (buffer : Buffer) : BitVec 32 × Buffer :=
  (load32 buffer.memory buffer.cursor, buffer.advance 4)

def getFromBuffer16NoOrder (buffer : Buffer) : BitVec 16 × Buffer :=
  (load16 buffer.memory buffer.cursor, buffer.advance 2)

def getFromBuffer8 (buffer : Buffer) : Byte × Buffer :=
  (buffer.memory buffer.cursor, buffer.advance 1)

/-- The two results are stored where the caller passed a pointer that is not
`NULL`; `data8` and `data4` are what is there before the call. -/
def getFromBuffer4 (buffer : Buffer) (data8 data4 : Option Byte) :
    (Option Byte × Option Byte) × Buffer :=
  ((data8.map fun _ => buffer.memory buffer.cursor >>> 4,
    data4.map fun _ => buffer.memory buffer.cursor &&& 0xf0),
    buffer.advance 1)

def getFromBuffer1 (buffer : Buffer) (place : ℕ) : Byte :=
  (buffer.memory buffer.cursor >>> place) &&& 0xfe

/-! ## Fields -/

/-- A value together with the pair of functions that carries it. -/
inductive Field where
  | block (data : List Byte)
  | word32 (data : BitVec 32)
  | word16 (data : BitVec 16)
  | word32NoOrder (data : BitVec 32)
  | word16NoOrder (data : BitVec 16)
  | byte (data : Byte)

/-- What the reader knows of a field. -/
inductive Kind where
  | block (ofData : ℕ)
  | word32
  | word16
  | word32NoOrder
  | word16NoOrder
  | byte

namespace Field

def kind : Field → Kind
  | block data => .block data.length
  | word32 _ => .word32
  | word16 _ => .word16
  | word32NoOrder _ => .word32NoOrder
  | word16NoOrder _ => .word16NoOrder
  | byte _ => .byte

def size : Field → ℕ
  | block data => data.length
  | word32 _ => 4
  | word16 _ => 2
  | word32NoOrder _ => 4
  | word16NoOrder _ => 2
  | byte _ => 1

/-- How far the store of a writer reaches behind its cursor. -/
def spill : Field → ℕ
  | word16NoOrder _ => 2
  | _ => 0

/-- The field in the buffer. -/
def bytes : Field → List Byte
  | block data => data
  | word32 data => bytes32 (swap32 data)
  | word16 data => bytes16 (swap16 data)
  | word32NoOrder data => bytes32 data
  | word16NoOrder data => bytes16 data
  | byte data => [data]

def add (field : Field) (buffer : Buffer) : Buffer :=
  match field with
  | block data => addToBuffer buffer data
  | word32 data => addToBuffer32 buffer data
  | word16 data => addToBuffer16 buffer data
  | word32NoOrder data => addToBuffer32NoOrder buffer data
  | word16NoOrder data => addToBuffer16NoOrder buffer data
  | byte data => addToBuffer8 buffer data

end Field

def Kind.get (kind : Kind) (buffer : Buffer) : Field × Buffer :=
  match kind with
  | .block ofData => (getFromBuffer buffer ofData).map .block id
  | .word32 => (getFromBuffer32 buffer).map .word32 id
  | .word16 => (getFromBuffer16 buffer).map .word16 id
  | .word32NoOrder => (getFromBuffer32NoOrder buffer).map .word32NoOrder id
  | .word16NoOrder => (getFromBuffer16NoOrder buffer).map .word16NoOrder id
  | .byte => (getFromBuffer8 buffer).map .byte id

/-- The fields are written one behind the other. -/
def addAll (fields : List Field) (buffer : Buffer) : Buffer :=
  fields.foldl (fun buffer field => field.add buffer) buffer

/-- The fields are read one behind the other. -/
def getAll : List Kind → Buffer → List Field × Buffer
  | [], buffer => ([], buffer)
  | kind :: kinds, buffer =>
    let (field, behind) := kind.get buffer
    (getAll kinds behind).map (field :: ·) id

/-- The bytes the fields take. -/
def totalSize (fields : List Field) : ℕ := (fields.map Field.size).sum

section Fields

variable {field : Field} {fields : List Field} {buffer : Buffer}
variable {memory : ℕ → Byte} {cursor place : ℕ}

@[simp]
theorem Field.length_bytes : field.bytes.length = field.size := by
  cases field <;> rfl

@[simp]
theorem Field.cursor_add : (field.add buffer).cursor =
    buffer.cursor + field.size := by
  cases field <;> rfl

/-- The low half of a short that is stored as a word. -/
theorem bytes32_setWidth {data : BitVec 16} :
    bytes32 (data.setWidth 32) = bytes16 data ++ [0, 0] := by
  have hfirst : (data.setWidth 32).extractLsb' 0 8 = data.extractLsb' 0 8 := by
    ext index
    grind
  have hsecond : (data.setWidth 32).extractLsb' 8 8 = data.extractLsb' 8 8 := by
    ext index
    grind
  have hthird : (data.setWidth 32).extractLsb' 16 8 = 0 := by
    ext index
    grind
  have hfourth : (data.setWidth 32).extractLsb' 24 8 = 0 := by
    ext index
    grind
  rw [bytes32, hfirst, hsecond, hthird, hfourth]
  rfl

/-- A writer stores the bytes of its field, and zeros where it reaches behind
them. -/
theorem Field.memory_add (field : Field) (buffer : Buffer) :
    (field.add buffer).memory = write buffer.memory buffer.cursor
      (field.bytes ++ List.replicate field.spill 0) := by
  cases field with
  | word16NoOrder data =>
    change write buffer.memory buffer.cursor (bytes32 (data.setWidth 32)) = _
    rw [bytes32_setWidth]
    rfl
  | block data =>
    change write buffer.memory buffer.cursor data = write _ _ (data ++ [])
    rw [List.append_nil]
  | word32 data => rfl
  | word16 data => rfl
  | word32NoOrder data => rfl
  | byte data => rfl

theorem Field.read_memory_add (field : Field) (buffer : Buffer) :
    read (field.add buffer).memory buffer.cursor field.size = field.bytes := by
  have hall : read (field.add buffer).memory buffer.cursor
      (field.bytes ++ List.replicate field.spill (0 : Byte)).length =
        field.bytes ++ List.replicate field.spill 0 := by
    rw [Field.memory_add, read_write]
  rw [List.length_append, Field.length_bytes, read_add] at hall
  exact (List.append_inj hall (by simp)).1

theorem Field.memory_add_of_lt (hplace : place < buffer.cursor) :
    (field.add buffer).memory place = buffer.memory place := by
  rw [Field.memory_add, write_of_lt hplace]

theorem addAll_cons : addAll (field :: fields) buffer =
    addAll fields (field.add buffer) := rfl

theorem cursor_addAll : (addAll fields buffer).cursor =
    buffer.cursor + totalSize fields := by
  induction fields generalizing buffer with
  | nil => rfl
  | cons field fields ih =>
    rw [addAll_cons, ih, Field.cursor_add, totalSize, totalSize,
      List.map_cons, List.sum_cons, Nat.add_assoc]

/-- Later fields leave what is in front of them alone. -/
theorem memory_addAll_of_lt (hplace : place < buffer.cursor) :
    (addAll fields buffer).memory place = buffer.memory place := by
  induction fields generalizing buffer with
  | nil => rfl
  | cons field fields ih =>
    have hbehind : place < (field.add buffer).cursor := by
      rw [Field.cursor_add]
      exact Nat.lt_add_right _ hplace
    rw [addAll_cons, ih hbehind, Field.memory_add_of_lt hplace]

@[simp]
theorem swap16_swap16 {word : BitVec 16} : swap16 (swap16 word) = word := by
  simp only [swap16]
  ext index
  grind

/-- A field is read as its bytes say. -/
theorem Kind.get_of_read
    (hread : read memory cursor field.size = field.bytes) :
    field.kind.get ⟨memory, cursor⟩ =
      (field, ⟨memory, cursor + field.size⟩) := by
  cases field with
  | block data =>
    change ((Field.block (read memory cursor data.length), _) : Field × Buffer)
      = _
    rw [show read memory cursor data.length = data from hread]
    rfl
  | word32 data =>
    change ((Field.word32 (swap32 (load32 memory cursor)), _) : Field × Buffer)
      = _
    rw [load32_of_read hread, swap32_swap32]
    rfl
  | word16 data =>
    change ((Field.word16 (swap16 (load16 memory cursor)), _) : Field × Buffer)
      = _
    rw [load16_of_read hread, swap16_swap16]
    rfl
  | word32NoOrder data =>
    change ((Field.word32NoOrder (load32 memory cursor), _) : Field × Buffer)
      = _
    rw [load32_of_read hread]
    rfl
  | word16NoOrder data =>
    change ((Field.word16NoOrder (load16 memory cursor), _) : Field × Buffer)
      = _
    rw [load16_of_read hread]
    rfl
  | byte data =>
    have hbyte : [memory cursor] = [data] := hread
    change ((Field.byte (memory cursor), _) : Field × Buffer) = _
    rw [List.singleton_inj.mp hbyte]
    rfl

/-- What was written is read back, and the two cursors end at one place. -/
theorem getAll_addAll (fields : List Field) (buffer : Buffer) :
    getAll (fields.map Field.kind)
        ⟨(addAll fields buffer).memory, buffer.cursor⟩ =
      (fields, addAll fields buffer) ∧
    (addAll fields buffer).cursor = buffer.cursor + totalSize fields := by
  refine ⟨?_, cursor_addAll⟩
  induction fields generalizing buffer with
  | nil => rfl
  | cons field fields ih =>
    have hkept : read (addAll fields (field.add buffer)).memory buffer.cursor
        field.size = field.bytes := by
      rw [← Field.read_memory_add field buffer]
      apply read_congr
      intro index hindex
      apply memory_addAll_of_lt
      rw [Field.cursor_add]
      exact Nat.add_lt_add_left hindex _
    rw [addAll_cons, List.map_cons, getAll, Kind.get_of_read hkept,
      ← Field.cursor_add]
    change (getAll (fields.map Field.kind)
      ⟨(addAll fields (field.add buffer)).memory,
        (field.add buffer).cursor⟩).map (field :: ·) id = _
    rw [ih (field.add buffer)]
    rfl

end Fields

end Sensor.UtilBuffer
