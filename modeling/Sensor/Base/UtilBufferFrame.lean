import Mathlib
import Sensor.Base.UtilBuffer

/-!
# What a write into a buffer leaves alone

Which bytes a sequence of writers changes, and which of the fields below one
byte can be taken back from the byte they were packed into.
-/

namespace Sensor.UtilBuffer

open Region ByteOrder

/-! ## The bytes behind the cursor -/

/-- One call of a writer that moves the cursor. -/
inductive Write where
  | whole (field : Field)
  | nibbles (data8 data4 : Byte)

namespace Write

def add (entry : Write) (buffer : Buffer) : Buffer :=
  match entry with
  | whole field => field.add buffer
  | nibbles data8 data4 => addToBuffer4 buffer data8 data4

def size : Write → ℕ
  | whole field => field.size
  | nibbles _ _ => 1

/-- How far the store reaches behind the new cursor. -/
def spill : Write → ℕ
  | whole field => field.spill
  | nibbles _ _ => 0

end Write

def writeAll (writes : List Write) (buffer : Buffer) : Buffer :=
  writes.foldl (fun buffer entry => entry.add buffer) buffer

/-- The bytes the cursor moves over. -/
def advanceOf (writes : List Write) : ℕ := (writes.map Write.size).sum

/-- How far the stores reach behind the last cursor: the writes behind a store
may cover what it spilled. -/
def spillOf : List Write → ℕ
  | [] => 0
  | entry :: writes => max (entry.spill - advanceOf writes) (spillOf writes)

/-- Only bytes between the two cursors differ. -/
def TouchesOnlyBetween (before after : Buffer) : Prop :=
  ∀ place, place < before.cursor ∨ after.cursor ≤ place →
    after.memory place = before.memory place

section Frame

variable {entry : Write} {writes : List Write} {buffer : Buffer} {place : ℕ}

@[simp]
theorem Write.cursor_add :
    (entry.add buffer).cursor = buffer.cursor + entry.size := by
  cases entry with
  | whole field => exact Field.cursor_add
  | nibbles data8 data4 => rfl

theorem Write.exists_memory_add (entry : Write) (buffer : Buffer) :
    ∃ own : List Byte, own.length = entry.size ∧
      (entry.add buffer).memory = write buffer.memory buffer.cursor
        (own ++ List.replicate entry.spill 0) := by
  cases entry with
  | whole field => exact ⟨field.bytes, Field.length_bytes, field.memory_add buffer⟩
  | nibbles data8 data4 =>
    exact ⟨[(data8 <<< 4) &&& (data4 ||| 0xf0)], rfl, rfl⟩

theorem Write.memory_add_of_lt (hplace : place < buffer.cursor) :
    (entry.add buffer).memory place = buffer.memory place := by
  obtain ⟨own, _, hmemory⟩ := entry.exists_memory_add buffer
  rw [hmemory, write_of_lt hplace]

/-- Behind the new cursor a write leaves zeros as far as it spills. -/
theorem Write.memory_add_of_le (hplace : buffer.cursor + entry.size ≤ place) :
    (entry.add buffer).memory place =
      if place < buffer.cursor + entry.size + entry.spill then 0
      else buffer.memory place := by
  obtain ⟨own, hlength, hmemory⟩ := entry.exists_memory_add buffer
  rw [hmemory]
  split
  case isTrue hspilled =>
    obtain ⟨index, rfl⟩ := Nat.exists_eq_add_of_le hplace
    have hindex : entry.size + index <
        (own ++ List.replicate entry.spill (0 : Byte)).length := by
      rw [List.length_append, List.length_replicate, hlength]
      omega
    have hown : own.length ≤ entry.size + index := by
      rw [hlength]
      exact Nat.le_add_right _ _
    rw [Nat.add_assoc, write_add hindex, List.getElem_append_right hown,
      List.getElem_replicate]
  case isFalse hbehind =>
    apply write_of_le
    rw [List.length_append, List.length_replicate, hlength]
    omega

theorem writeAll_cons :
    writeAll (entry :: writes) buffer = writeAll writes (entry.add buffer) := rfl

theorem advanceOf_cons :
    advanceOf (entry :: writes) = entry.size + advanceOf writes := by
  rw [advanceOf, advanceOf, List.map_cons, List.sum_cons]

theorem cursor_writeAll :
    (writeAll writes buffer).cursor = buffer.cursor + advanceOf writes := by
  induction writes generalizing buffer with
  | nil => rfl
  | cons entry writes ih =>
    rw [writeAll_cons, ih, Write.cursor_add, advanceOf_cons, Nat.add_assoc]

theorem memory_writeAll_of_lt (hplace : place < buffer.cursor) :
    (writeAll writes buffer).memory place = buffer.memory place := by
  induction writes generalizing buffer with
  | nil => rfl
  | cons entry writes ih =>
    have hbehind : place < (entry.add buffer).cursor := by
      rw [Write.cursor_add]
      exact Nat.lt_add_right _ hplace
    rw [writeAll_cons, ih hbehind, Write.memory_add_of_lt hplace]

/-- Behind the last cursor there are zeros as far as a store reached. -/
theorem memory_writeAll_of_le
    (hplace : buffer.cursor + advanceOf writes ≤ place) :
    (writeAll writes buffer).memory place =
      if place < buffer.cursor + advanceOf writes + spillOf writes then 0
      else buffer.memory place := by
  induction writes generalizing buffer with
  | nil => exact (if_neg (Nat.not_lt.mpr hplace)).symm
  | cons entry writes ih =>
    rw [advanceOf_cons, ← Nat.add_assoc] at hplace
    have hrest : (entry.add buffer).cursor + advanceOf writes ≤ place := by
      rw [Write.cursor_add]
      exact hplace
    have hown : buffer.cursor + entry.size ≤ place :=
      (Nat.le_add_right _ _).trans hplace
    rw [writeAll_cons, ih hrest, Write.cursor_add,
      Write.memory_add_of_le hown, advanceOf_cons, spillOf, ← ite_or]
    apply if_congr _ rfl rfl
    omega

/-- The bytes outside the region a sequence of writes moves over keep their
values just when those its stores reach behind the end are zero anyway. -/
theorem touchesOnlyBetween_writeAll_iff (writes : List Write)
    (buffer : Buffer) :
    TouchesOnlyBetween buffer (writeAll writes buffer) ↔
      ∀ index, index < spillOf writes →
        buffer.memory (buffer.cursor + advanceOf writes + index) = 0 := by
  constructor
  · intro htouches index hindex
    have hplace : buffer.cursor + advanceOf writes ≤
        buffer.cursor + advanceOf writes + index := Nat.le_add_right _ _
    rw [← htouches _ (Or.inr (cursor_writeAll.le.trans hplace)),
      memory_writeAll_of_le hplace]
    exact if_pos (Nat.add_lt_add_left hindex _)
  · intro hzero place hplace
    rw [cursor_writeAll] at hplace
    cases hplace with
    | inl hbefore => exact memory_writeAll_of_lt hbefore
    | inr hbehind =>
      rw [memory_writeAll_of_le hbehind]
      split
      case isTrue hspilled =>
        obtain ⟨index, rfl⟩ := Nat.exists_eq_add_of_le hbehind
        exact (hzero index (Nat.lt_of_add_lt_add_left hspilled)).symm
      case isFalse => rfl

/-- The same for one write. -/
theorem touchesOnlyBetween_add_iff (entry : Write) (buffer : Buffer) :
    TouchesOnlyBetween buffer (entry.add buffer) ↔
      ∀ index, index < entry.spill →
        buffer.memory (buffer.cursor + entry.size + index) = 0 := by
  have hadvance : advanceOf [entry] = entry.size := by
    rw [advanceOf_cons]
    rfl
  have hspill : spillOf [entry] = entry.spill := Nat.max_zero _
  rw [← hadvance, ← hspill]
  exact touchesOnlyBetween_writeAll_iff [entry] buffer

/-- The field behind one that is written again in its place. -/
theorem read_behind_add_iff (entry : Write) (buffer : Buffer) (length : ℕ) :
    read (entry.add buffer).memory (buffer.cursor + entry.size) length =
        read buffer.memory (buffer.cursor + entry.size) length ↔
      ∀ index, index < min entry.spill length →
        buffer.memory (buffer.cursor + entry.size + index) = 0 := by
  have hplace (index : ℕ) : (entry.add buffer).memory
      (buffer.cursor + entry.size + index) =
        if index < entry.spill then 0
        else buffer.memory (buffer.cursor + entry.size + index) := by
    rw [Write.memory_add_of_le (Nat.le_add_right _ _)]
    exact if_congr (Nat.add_lt_add_iff_left) rfl rfl
  constructor
  · intro hread index hindex
    obtain ⟨hspilled, hlength⟩ := Nat.lt_min.mp hindex
    have hcell := List.map_inj_left.mp hread index
      (List.mem_range.mpr hlength)
    rw [← hcell, hplace, if_pos hspilled]
  · intro hzero
    apply read_congr
    intro index hlength
    rw [hplace]
    split
    case isTrue hspilled =>
      exact (hzero index (Nat.lt_min.mpr ⟨hspilled, hlength⟩)).symm
    case isFalse => rfl

/-- One write, the field behind it and a sequence of writes: each keeps the
bytes the cursor does not move over just when those the stores reach behind it
are zero anyway. -/
theorem keeps_outside_iff (entry : Write) (writes : List Write)
    (buffer : Buffer) (length : ℕ) :
    (TouchesOnlyBetween buffer (entry.add buffer) ↔
      ∀ index, index < entry.spill →
        buffer.memory (buffer.cursor + entry.size + index) = 0) ∧
    (read (entry.add buffer).memory (buffer.cursor + entry.size) length =
        read buffer.memory (buffer.cursor + entry.size) length ↔
      ∀ index, index < min entry.spill length →
        buffer.memory (buffer.cursor + entry.size + index) = 0) ∧
    (TouchesOnlyBetween buffer (writeAll writes buffer) ↔
      ∀ index, index < spillOf writes →
        buffer.memory (buffer.cursor + advanceOf writes + index) = 0) := by
  constructor
  · exact touchesOnlyBetween_add_iff entry buffer
  constructor
  · exact read_behind_add_iff entry buffer length
  · exact touchesOnlyBetween_writeAll_iff writes buffer

/-- A short without reordering clears the byte behind it. -/
theorem word16NoOrder_clears_next :
    ¬ TouchesOnlyBetween ⟨fun _ => 0xff, 0⟩
      ((Write.whole (.word16NoOrder 1)).add ⟨fun _ => 0xff, 0⟩) := by
  intro htouches
  have hbyte := htouches 2 (Or.inr (Nat.le_refl 2))
  exact absurd hbyte (by decide)

end Frame

/-! ## Fields below one byte -/

def nibble (value : BitVec 4) : Byte := value.setWidth 8

def bitByte (bit : Bool) : Byte := (BitVec.ofBool bit).setWidth 8

def addNibbles (pairs : List (BitVec 4 × BitVec 4)) (buffer : Buffer) : Buffer :=
  pairs.foldl (fun buffer pair =>
    addToBuffer4 buffer (nibble pair.1) (nibble pair.2)) buffer

/-- Both results are asked for each time; `data8` and `data4` are what the
variables for them held before. -/
def getNibbles (data8 data4 : Byte) :
    ℕ → Buffer → List (Option Byte × Option Byte)
  | 0, _ => []
  | count + 1, buffer =>
    let (pair, behind) := getFromBuffer4 buffer (some data8) (some data4)
    pair :: getNibbles data8 data4 count behind

def addBits (writes : List (Bool × Fin 8)) (buffer : Buffer) : Buffer :=
  writes.foldl (fun buffer entry =>
    addToBuffer1 buffer (bitByte entry.1) entry.2) buffer

/-- The bit last written at each place, or the initial one. -/
def lastBits (initial : Byte) (writes : List (Bool × Fin 8)) : Fin 8 → Bool :=
  writes.foldl (fun bits entry => Function.update bits entry.2 entry.1)
    fun place => initial.getLsbD place

section SubByte

variable {buffer : Buffer} {data8 data4 : Byte}

theorem getElem_mask (index : ℕ) (hindex : index < 8) :
    (0xf0 : Byte)[index] = decide (4 ≤ index) := by
  decide +revert

theorem shifted_and_mask {high : BitVec 4} :
    (nibble high <<< 4) &&& (0xf0 : Byte) = nibble high <<< 4 := by
  ext index hindex
  rw [BitVec.getElem_and, getElem_mask index hindex, nibble,
    BitVec.getElem_shiftLeft]
  cases Nat.lt_or_ge index 4 with
  | inl hlow => simp [hlow]
  | inr hhigh => simp [hhigh]

/-- The low nibble is masked away. -/
theorem packed_eq {high low : BitVec 4} :
    (nibble high <<< 4) &&& (nibble low ||| (0xf0 : Byte)) =
      nibble high <<< 4 := by
  ext index hindex
  rw [BitVec.getElem_and, BitVec.getElem_or, getElem_mask index hindex,
    nibble, BitVec.getElem_shiftLeft]
  cases Nat.lt_or_ge index 4 with
  | inl hlow => simp [hlow]
  | inr hhigh => simp [hhigh]

theorem shifted_back {high : BitVec 4} :
    (nibble high <<< 4) >>> 4 = nibble high := by
  rw [nibble]
  ext index
  grind

/-- Only an empty high nibble is small enough to be a low one. -/
theorem shifted_eq_nibble_iff {high low : BitVec 4} :
    nibble high <<< 4 = nibble low ↔ (high, low) = (0, 0) := by
  constructor
  · intro heq
    have hhigh : high = 0 := by
      ext index hindex
      have hbit := congrArg (fun byte : Byte => byte.getLsbD (index + 4)) heq
      have hbyte : index + 4 < 8 := Nat.add_lt_add_right hindex 4
      have hlower : index < 8 := Nat.lt_of_add_right_lt hbyte
      simpa [nibble, hindex, hbyte, hlower] using hbit
    have hlow : nibble low = 0 := by
      rw [← heq, hhigh]
      rfl
    have hzero : low = 0 := by
      ext index hindex
      have hbit := congrArg (fun byte : Byte => byte.getLsbD index) hlow
      have hbyte : index < 8 := Nat.lt_of_lt_of_le hindex (by decide)
      simpa [nibble, hindex, hbyte] using hbit
    rw [hhigh, hzero]
  · intro hpair
    rw [(Prod.mk.inj hpair).1, (Prod.mk.inj hpair).2]
    rfl

/-- The bytes the pairs are packed into. -/
theorem addNibbles_eq {pairs : List (BitVec 4 × BitVec 4)} :
    addNibbles pairs buffer =
      ⟨write buffer.memory buffer.cursor
        (pairs.map fun pair => nibble pair.1 <<< 4),
        buffer.cursor + pairs.length⟩ := by
  induction pairs generalizing buffer with
  | nil =>
    have hsame : write buffer.memory buffer.cursor [] = buffer.memory := by
      funext place
      simp [write]
    rw [List.map_nil, hsame]
    rfl
  | cons pair pairs ih =>
    calc addNibbles (pair :: pairs) buffer
      _ = addNibbles pairs
          (addToBuffer4 buffer (nibble pair.1) (nibble pair.2)) := rfl
      _ = addNibbles pairs
          ⟨write buffer.memory buffer.cursor [nibble pair.1 <<< 4],
            buffer.cursor + 1⟩ := by rw [addToBuffer4, packed_eq]
      _ = _ := by
        rw [ih, Buffer.mk.injEq, List.length_cons]
        exact ⟨write_write_append rfl, Nat.succ_add_eq_add_succ _ _⟩

theorem getNibbles_eq {memory : ℕ → Byte} {cursor count : ℕ} :
    getNibbles data8 data4 count ⟨memory, cursor⟩ =
      (read memory cursor count).map fun byte : Byte =>
        (some (byte >>> 4), some (byte &&& 0xf0)) := by
  induction count generalizing cursor with
  | zero => rfl
  | succ count ih =>
    have hread : read memory cursor (count + 1) =
        memory cursor :: read memory (cursor + 1) count := by
      rw [Nat.add_comm, read_add]
      rfl
    rw [hread, List.map_cons, ← ih]
    rfl

/-- Nibbles that are packed and taken back are the same just when all of them
are zero. -/
theorem getNibbles_addNibbles_iff (pairs : List (BitVec 4 × BitVec 4))
    (buffer : Buffer) (data8 data4 : Byte) :
    getNibbles data8 data4 pairs.length
        ⟨(addNibbles pairs buffer).memory, buffer.cursor⟩ =
      (pairs.map fun pair => (some (nibble pair.1), some (nibble pair.2))) ↔
    ∀ pair ∈ pairs, pair = (0, 0) := by
  have hlength : pairs.length =
      (pairs.map fun pair => nibble pair.1 <<< 4).length := by
    rw [List.length_map]
  rw [getNibbles_eq, addNibbles_eq, hlength, read_write, List.map_map,
    List.map_inj_left]
  apply forall₂_congr
  intro pair _
  rw [Function.comp_apply, shifted_back, shifted_and_mask, Prod.mk.injEq,
    Option.some_inj, Option.some_inj, shifted_eq_nibble_iff]
  exact and_iff_right rfl

theorem cleared_bit {bit : Bool} {place : ℕ} :
    (bitByte bit &&& (0xfe : Byte)) <<< place = 0 := by
  have hmask : bitByte bit &&& (0xfe : Byte) = 0#8 := by
    cases bit <;> rfl
  rw [hmask, BitVec.zero_shiftLeft]
  rfl

/-- Every written bit clears the byte. -/
theorem memory_addBits (writes : List (Bool × Fin 8)) (buffer : Buffer) :
    (addBits writes buffer).cursor = buffer.cursor ∧
    (addBits writes buffer).memory buffer.cursor =
      if writes = [] then buffer.memory buffer.cursor else 0 := by
  induction writes generalizing buffer with
  | nil => exact ⟨rfl, rfl⟩
  | cons entry writes ih =>
    have hcell : (addToBuffer1 buffer (bitByte entry.1) entry.2).memory
        buffer.cursor = 0 := by
      rw [addToBuffer1, cleared_bit]
      simp [write]
    obtain ⟨hcursor, hmemory⟩ :=
      ih (addToBuffer1 buffer (bitByte entry.1) entry.2)
    refine ⟨hcursor, hmemory.trans ?_⟩
    rw [if_neg (List.cons_ne_nil _ _)]
    split
    case isTrue => exact hcell
    case isFalse => rfl

/-- The lowest bit of what is read is masked away. -/
theorem getFromBuffer1_eq_bitByte {place : ℕ} {bit : Bool}
    (hget : getFromBuffer1 buffer place = bitByte bit) : bit = false := by
  have hbit := congrArg (fun byte : Byte => byte.getLsbD 0) hget
  have hmask : (0xfe : Byte).getLsbD 0 = false := rfl
  simp only [getFromBuffer1, BitVec.getLsbD_and, hmask, Bool.and_false,
    bitByte] at hbit
  cases bit with
  | false => rfl
  | true => exact absurd hbit (by decide)

/-- Single bits are read as they were last written just when all of them are
zero. -/
theorem getFromBuffer1_addBits_iff (writes : List (Bool × Fin 8))
    (buffer : Buffer) :
    (∀ place : Fin 8, getFromBuffer1 (addBits writes buffer) place =
      bitByte (lastBits (buffer.memory buffer.cursor) writes place)) ↔
    ∀ place, lastBits (buffer.memory buffer.cursor) writes place = false := by
  constructor
  · intro hget place
    exact getFromBuffer1_eq_bitByte (hget place)
  · intro hzero place
    obtain ⟨hcursor, hmemory⟩ := memory_addBits writes buffer
    have hcell : (addBits writes buffer).memory buffer.cursor = 0#8 := by
      rw [hmemory]
      split
      case isTrue hnil =>
        rw [hnil] at hzero
        ext index hindex
        rw [BitVec.getElem_zero]
        exact hzero ⟨index, hindex⟩
      case isFalse => rfl
    rw [getFromBuffer1, hcursor, hcell, hzero, BitVec.zero_ushiftRight]
    rfl

/-- Both kinds of fields below one byte. -/
theorem subByte_roundTrip_iff (buffer : Buffer) (data8 data4 : Byte)
    (pairs : List (BitVec 4 × BitVec 4)) (writes : List (Bool × Fin 8)) :
    (getNibbles data8 data4 pairs.length
        ⟨(addNibbles pairs buffer).memory, buffer.cursor⟩ =
      (pairs.map fun pair => (some (nibble pair.1), some (nibble pair.2))) ↔
      ∀ pair ∈ pairs, pair = (0, 0)) ∧
    ((∀ place : Fin 8, getFromBuffer1 (addBits writes buffer) place =
      bitByte (lastBits (buffer.memory buffer.cursor) writes place)) ↔
      ∀ place, lastBits (buffer.memory buffer.cursor) writes place = false) :=
  ⟨getNibbles_addNibbles_iff pairs buffer data8 data4,
    getFromBuffer1_addBits_iff writes buffer⟩

/-- The nibbles 1 and 2 are read as 1 and 16; a bit that was set is lost. -/
theorem subByte_fields_lost :
    getNibbles 0 0 1 ⟨(addNibbles [(1, 2)] ⟨fun _ => 0, 0⟩).memory, 0⟩ ≠
      [(some (nibble 1), some (nibble 2))] ∧
    getFromBuffer1 (addBits [(true, ⟨3, by decide⟩)] ⟨fun _ => 0, 0⟩) 3 ≠
      bitByte true := by
  decide

end SubByte

end Sensor.UtilBuffer
