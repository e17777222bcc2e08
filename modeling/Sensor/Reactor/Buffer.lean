import Sensor.Core.Region

/-!
# The byte buffer of a stream link

`net::Buffer` keeps an allocation from `begin` to `end` and two pointers into
it, `r` where the pending bytes start and `w` where the next ones go.  The model
keeps the pointers as offsets from `begin`.  Allocation does not fail; an access
outside the allocation is undefined behaviour, for which the operations return
`none`.
-/

namespace Sensor

open Region

/-- The fields of the class: the cells from `begin` on, their number `end -
begin`, and the offsets of `r` and `w`. -/
structure Buffer where
  memory : ℕ → UInt8
  size : ℕ
  r : ℕ
  w : ℕ

namespace Buffer

/-- The difference of two pointers as a `size_t`: a negative one wraps. -/
def ptrDiff (high low : ℕ) : ℕ :=
  if low ≤ high then high - low else 2 ^ 64 - (low - high)

/-- The constructor, which clears the allocation. -/
def new (initial : ℕ) : Buffer where
  memory := fun _ => 0
  size := initial
  r := 0
  w := 0

def pending (self : Buffer) : ℕ :=
  ptrDiff self.w self.r

def writable (self : Buffer) : ℕ :=
  ptrDiff self.size self.w

def processed (self : Buffer) (bytes : ℕ) : Buffer :=
  { self with r := self.r + bytes }

def written (self : Buffer) (bytes : ℕ) : Buffer :=
  { self with w := self.w + bytes }

def reset (self : Buffer) : Buffer :=
  { self with r := 0, w := 0 }

/-- Bytes copied to `writePtr()`, by `memcpy` or by the kernel. -/
def store (self : Buffer) (data : List UInt8) : Option Buffer :=
  if self.w + data.length ≤ self.size then
    some { self with memory := write self.memory self.w data }
  else none

/-- `realloc` to `s` bytes, and `memset` from `w` to the new end. -/
def expandTo (self : Buffer) (s : ℕ) : Option Buffer :=
  ({ self with size := s } : Buffer).store (List.replicate (s - self.w) 0)

def append (self : Buffer) (data : List UInt8) : Option Buffer :=
  (if self.writable < data.length then
    self.expandTo (self.size + data.length)
  else some self).bind fun self =>
    (self.store data).map fun self => self.written data.length

/-! ## Well-formed buffers -/

/-- `begin <= r <= w <= end`. -/
structure Valid (buffer : Buffer) : Prop where
  r_le : buffer.r ≤ buffer.w
  w_le : buffer.w ≤ buffer.size

/-- The bytes from `r` to `w`. -/
def pendingBytes (buffer : Buffer) : List UInt8 :=
  read buffer.memory buffer.r (buffer.w - buffer.r)

theorem ptrDiff_of_le {high low : ℕ} (hle : low ≤ high) :
    ptrDiff high low = high - low :=
  if_pos hle

theorem new_valid (initial : ℕ) : (new initial).Valid where
  r_le := Nat.le_refl 0
  w_le := Nat.zero_le initial

theorem reset_valid (buffer : Buffer) : buffer.reset.Valid where
  r_le := Nat.le_refl 0
  w_le := Nat.zero_le buffer.size

variable {buffer next : Buffer} {data : List UInt8}

theorem Valid.pending_eq (hvalid : buffer.Valid) :
    buffer.pending = buffer.w - buffer.r :=
  ptrDiff_of_le hvalid.r_le

theorem Valid.writable_eq (hvalid : buffer.Valid) :
    buffer.writable = buffer.size - buffer.w :=
  ptrDiff_of_le hvalid.w_le

theorem Valid.length_pendingBytes (hvalid : buffer.Valid) :
    buffer.pendingBytes.length = buffer.pending := by
  rw [hvalid.pending_eq, pendingBytes, length_read]

theorem Valid.pending_eq_zero_iff (hvalid : buffer.Valid) :
    buffer.pending = 0 ↔ buffer.pendingBytes = [] := by
  rw [← hvalid.length_pendingBytes, List.length_eq_zero_iff]

/-- Bytes that were added are pending. -/
theorem Valid.pending_ne_zero (hvalid : buffer.Valid) {old data : List UInt8}
    (hbytes : buffer.pendingBytes = old ++ data) (hne : data ≠ []) :
    buffer.pending ≠ 0 := by
  rw [Ne, hvalid.pending_eq_zero_iff, hbytes, List.append_eq_nil_iff]
  exact fun hempty => hne hempty.2

/-- The client took `count` of the pending bytes. -/
theorem Valid.processed (hvalid : buffer.Valid) {count : ℕ}
    (hcount : count ≤ buffer.pending) : (buffer.processed count).Valid where
  r_le := by
    have hle := hvalid.r_le
    rw [hvalid.pending_eq] at hcount
    simp only [Buffer.processed]
    omega
  w_le := hvalid.w_le

theorem Valid.pendingBytes_processed (hvalid : buffer.Valid) {count : ℕ}
    (hcount : count ≤ buffer.pending) :
    buffer.pendingBytes = read buffer.memory buffer.r count ++
      (buffer.processed count).pendingBytes := by
  rw [hvalid.pending_eq] at hcount
  have hsplit : buffer.w - buffer.r =
      count + (buffer.w - (buffer.r + count)) := by omega
  rw [pendingBytes, hsplit, read_add]
  rfl

/-- Storing bytes behind the pending ones. -/
theorem Valid.store_written (hvalid : buffer.Valid)
    (hfits : buffer.w + data.length ≤ buffer.size) :
    ∃ stored, buffer.store data = some stored ∧
      (stored.written data.length).Valid ∧
      (stored.written data.length).size = buffer.size ∧
      (stored.written data.length).pendingBytes =
        buffer.pendingBytes ++ data := by
  have hle := hvalid.r_le
  refine ⟨_, if_pos hfits, ⟨?_, hfits⟩, rfl, ?_⟩
  · simp only [written]
    omega
  · have hsplit : buffer.w + data.length - buffer.r =
        (buffer.w - buffer.r) + data.length := by omega
    have hplace : buffer.r + (buffer.w - buffer.r) = buffer.w :=
      Nat.add_sub_cancel' hle
    have hkept : read (write buffer.memory buffer.w data) buffer.r
        (buffer.w - buffer.r) = buffer.pendingBytes := by
      apply read_congr
      intro index hindex
      exact write_of_lt (by omega)
    simp only [pendingBytes, written]
    rw [hsplit, read_add, hplace, hkept, read_write, pendingBytes]

/-- `append` keeps a buffer well formed and adds the bytes behind the pending
ones, expanding the allocation where they do not fit. -/
theorem Valid.append (hvalid : buffer.Valid) (data : List UInt8) :
    ∃ next, buffer.append data = some next ∧ next.Valid ∧
      next.pendingBytes = buffer.pendingBytes ++ data := by
  have hle := hvalid.r_le
  have hbound := hvalid.w_le
  have hroom : ∃ larger, (if buffer.writable < data.length then
        buffer.expandTo (buffer.size + data.length) else some buffer) =
          some larger ∧ larger.Valid ∧
        larger.w + data.length ≤ larger.size ∧
        larger.pendingBytes = buffer.pendingBytes := by
    rw [hvalid.writable_eq]
    split
    case isFalse hfits =>
      exact ⟨buffer, rfl, hvalid, by omega, rfl⟩
    case isTrue hsmall =>
      refine ⟨_, if_pos ?_, ⟨hle, ?_⟩, ?_, ?_⟩
      · rw [List.length_replicate]
        simp only
        omega
      · simp only
        omega
      · simp only
        omega
      · apply read_congr
        intro index hindex
        exact write_of_lt (by simp only at hindex ⊢; omega)
  obtain ⟨larger, hexpand, hlarger, hfits, hpending⟩ := hroom
  obtain ⟨stored, hstore, hnext, -, hbytes⟩ := hlarger.store_written hfits
  refine ⟨stored.written data.length, ?_, hnext, ?_⟩
  · rw [Buffer.append, hexpand, Option.bind_some, hstore, Option.map_some]
  · rw [hbytes, hpending]

/-- With the write pointer past the end the number of writable bytes wraps, so
`append` does not expand and copies outside the allocation. -/
theorem append_of_past_end (hpast : buffer.size < buffer.w)
    (hsmall : data.length ≤ 2 ^ 64 - (buffer.w - buffer.size)) :
    buffer.append data = none := by
  have hwritable : buffer.writable = 2 ^ 64 - (buffer.w - buffer.size) :=
    if_neg (Nat.not_le.mpr hpast)
  have houtside : ¬ buffer.w + data.length ≤ buffer.size := by omega
  rw [append, hwritable, if_neg (Nat.not_lt.mpr hsmall), Option.bind_some,
    store, if_neg houtside, Option.map_none]

end Buffer

end Sensor
