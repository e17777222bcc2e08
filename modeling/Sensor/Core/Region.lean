import Mathlib.Data.List.Range
import Mathlib.Data.Nat.ModEq

/-!
# Regions and rings of memory cells

An allocation is a function from offsets to cells.  This file reads and writes
contiguous regions of one, and reads regions that wrap around at the end of
the allocation: the two pieces a circular buffer copies form one such region.
-/

namespace Sensor.Region

variable {Cell : Type*}

/-- The `length` cells from `offset` on. -/
def read (memory : ℕ → Cell) (offset length : ℕ) : List Cell :=
  (List.range length).map fun index => memory (offset + index)

/-- The memory after the cells of `data` were stored from `offset` on. -/
def write (memory : ℕ → Cell) (offset : ℕ) (data : List Cell) : ℕ → Cell :=
  fun place =>
    if offset ≤ place then (data[place - offset]?).getD (memory place)
    else memory place

@[simp]
theorem length_read {memory : ℕ → Cell} {offset length : ℕ} :
    (read memory offset length).length = length := by
  simp [read]

theorem getElem_read {memory : ℕ → Cell} {offset length index : ℕ}
    (hindex : index < (read memory offset length).length) :
    (read memory offset length)[index] = memory (offset + index) := by
  simp [read]

theorem write_add {memory : ℕ → Cell} {offset index : ℕ} {data : List Cell}
    (hindex : index < data.length) :
    write memory offset data (offset + index) = data[index] := by
  simp [write, hindex]

theorem write_of_lt {memory : ℕ → Cell} {offset place : ℕ} {data : List Cell}
    (hplace : place < offset) :
    write memory offset data place = memory place := by
  simp [write, Nat.not_le.mpr hplace]

theorem write_of_le {memory : ℕ → Cell} {offset place : ℕ} {data : List Cell}
    (hplace : offset + data.length ≤ place) :
    write memory offset data place = memory place := by
  have hend : data.length ≤ place - offset := Nat.le_sub_of_add_le' hplace
  simp [write, hend]

/-- A region splits into its first cells and the rest. -/
theorem read_add {memory : ℕ → Cell} {offset first second : ℕ} :
    read memory offset (first + second) =
      read memory offset first ++ read memory (offset + first) second := by
  simp [read, List.range_add, Nat.add_assoc]

theorem read_congr {memory memory' : ℕ → Cell} {offset length : ℕ}
    (hsame : ∀ index, index < length →
      memory (offset + index) = memory' (offset + index)) :
    read memory offset length = read memory' offset length := by
  apply List.map_congr_left
  intro index hindex
  exact hsame index (List.mem_range.mp hindex)

/-- What was stored is what is read. -/
theorem read_write {memory : ℕ → Cell} {offset : ℕ} {data : List Cell} :
    read (write memory offset data) offset data.length = data := by
  apply List.ext_getElem
  · simp
  · intro index _ hindex
    rw [getElem_read, write_add hindex]

/-- Storing right behind what was stored stores both as one. -/
theorem write_write_append {memory : ℕ → Cell} {offset place : ℕ}
    {first second : List Cell} (hplace : place = offset + first.length) :
    write (write memory offset first) place second =
      write memory offset (first ++ second) := by
  funext cell
  subst hplace
  rcases Nat.lt_or_ge cell offset with hbelow | habove
  · rw [write_of_lt (by omega), write_of_lt hbelow, write_of_lt hbelow]
  rcases Nat.lt_or_ge cell (offset + first.length) with hfirst | hsecond
  · have hindex : cell - offset < first.length := by omega
    rw [write_of_lt hfirst]
    simp [write, habove, List.getElem?_append_left hindex]
  · have hindex : first.length ≤ cell - offset := by omega
    have hfirst : first[cell - offset]? = none :=
      List.getElem?_eq_none hindex
    simp [write, hsecond, habove, hfirst, List.getElem?_append_right hindex,
      Nat.sub_sub]

/-- Storing over the end of what was stored replaces it. -/
theorem write_write_replace {memory : ℕ → Cell} {offset place : ℕ}
    {first old new : List Cell} (hplace : place = offset + first.length)
    (hlength : old.length = new.length) :
    write (write memory offset (first ++ old)) place new =
      write memory offset (first ++ new) := by
  rw [← write_write_append hplace, ← write_write_append hplace]
  funext cell
  rcases Nat.lt_or_ge cell place with hbelow | habove
  · rw [write_of_lt hbelow, write_of_lt hbelow, write_of_lt hbelow]
  rcases Nat.lt_or_ge cell (place + new.length) with hinside | hbehind
  · have hindex : cell - place < new.length := by omega
    simp [write, habove, hindex]
  · rw [write_of_le hbehind, write_of_le (by omega), write_of_le hbehind]

/-- A part of what was read. -/
theorem take_drop_read {memory : ℕ → Cell} {start offset length total : ℕ}
    (hinside : offset + length ≤ total) :
    ((read memory start total).drop offset).take length =
      read memory (start + offset) length := by
  apply List.ext_getElem
  · simp only [List.length_take, List.length_drop, length_read]
    omega
  · intro index _ _
    rw [List.getElem_take, List.getElem_drop, getElem_read, getElem_read,
      Nat.add_assoc]

/-! ## Rings -/

/-- The `length` cells from `start` on in a ring of `capacity` cells. -/
def ringRead (memory : ℕ → Cell) (capacity start length : ℕ) : List Cell :=
  (List.range length).map fun index => memory ((start + index) % capacity)

/-- `memory'` is `memory` with `data` stored from `start` on in the ring. -/
structure RingStore (memory memory' : ℕ → Cell) (capacity start : ℕ)
    (data : List Cell) : Prop where
  stored : ∀ index (hindex : index < data.length),
    memory' ((start + index) % capacity) = data[index]
  kept : ∀ index, data.length ≤ index → index < capacity →
    memory' ((start + index) % capacity) = memory ((start + index) % capacity)

section Ring

variable {memory memory' : ℕ → Cell} {capacity start length : ℕ}
variable {data : List Cell}

@[simp]
theorem length_ringRead :
    (ringRead memory capacity start length).length = length := by
  simp [ringRead]

theorem getElem_ringRead {index : ℕ}
    (hindex : index < (ringRead memory capacity start length).length) :
    (ringRead memory capacity start length)[index] =
      memory ((start + index) % capacity) := by
  simp [ringRead]

@[simp]
theorem ringRead_zero : ringRead memory capacity start 0 = [] := rfl

theorem take_ringRead {count : ℕ} (hcount : count ≤ length) :
    (ringRead memory capacity start length).take count =
      ringRead memory capacity start count := by
  apply List.ext_getElem
  · simp [hcount]
  · intro index _ _
    rw [List.getElem_take, getElem_ringRead, getElem_ringRead]

theorem drop_ringRead {count : ℕ} :
    (ringRead memory capacity start length).drop count =
      ringRead memory capacity ((start + count) % capacity)
        (length - count) := by
  apply List.ext_getElem
  · simp
  · intro index _ _
    rw [List.getElem_drop, getElem_ringRead, getElem_ringRead, Nat.mod_add_mod,
      Nat.add_assoc]

/-- A ring region that ends inside the allocation is one region. -/
theorem ringRead_eq_read (hfits : start + length ≤ capacity) :
    ringRead memory capacity start length = read memory start length := by
  apply List.map_congr_left
  intro index hindex
  have hlt := List.mem_range.mp hindex
  rw [Nat.mod_eq_of_lt (by omega)]

/-- A ring region that passes the end of the allocation is two regions. -/
theorem ringRead_eq_read_append (hstart : start < capacity)
    (hlength : length ≤ capacity) (hpasses : capacity ≤ start + length) :
    ringRead memory capacity start length =
      read memory start (capacity - start) ++
        read memory 0 (length - (capacity - start)) := by
  apply List.ext_getElem
  · simp only [length_ringRead, List.length_append, length_read]
    omega
  · intro index hindex _
    rw [length_ringRead] at hindex
    rw [getElem_ringRead, List.getElem_append]
    split
    case isTrue hfirst =>
      rw [length_read] at hfirst
      rw [getElem_read, Nat.mod_eq_of_lt (by omega)]
    case isFalse hsecond =>
      rw [length_read] at hsecond
      simp only [getElem_read, length_read]
      rw [Nat.mod_eq_sub_mod (by omega), Nat.mod_eq_of_lt (by omega)]
      congr 1
      omega

/-- Data that ends inside the allocation is stored as one region. -/
theorem RingStore.of_write (hfits : start + data.length ≤ capacity) :
    RingStore memory (write memory start data) capacity start data where
  stored := fun index hindex => by
    rw [Nat.mod_eq_of_lt (by omega), write_add hindex]
  kept := fun index hdata hcapacity => by
    rcases Nat.lt_or_ge (start + index) capacity with hlt | hge
    · rw [Nat.mod_eq_of_lt hlt, write_of_le (by omega)]
    · rcases Nat.eq_or_lt_of_le hge with heq | hgt
      · rw [← heq, Nat.mod_self]
        rcases Nat.eq_zero_or_pos start with hzero | hpos
        · exact write_of_le (by omega)
        · exact write_of_lt hpos
      · rw [Nat.mod_eq_sub_mod hge, Nat.mod_eq_of_lt (by omega),
          write_of_lt (by omega)]

/-- Data that passes the end of the allocation is stored as two regions. -/
theorem RingStore.of_write_write (hstart : start < capacity)
    (hlength : data.length ≤ capacity)
    (hpasses : capacity ≤ start + data.length) :
    RingStore memory
      (write (write memory start (data.take (capacity - start))) 0
        (data.drop (capacity - start))) capacity start data where
  stored := fun index hindex => by
    rcases Nat.lt_or_ge (start + index) capacity with hlt | hge
    · have htake : index < (data.take (capacity - start)).length := by
        rw [List.length_take]
        omega
      rw [Nat.mod_eq_of_lt hlt, write_of_le (by simp; omega), write_add htake,
        List.getElem_take]
    · have hdrop : start + index - capacity <
          (data.drop (capacity - start)).length := by
        rw [List.length_drop]
        omega
      rw [Nat.mod_eq_sub_mod hge, Nat.mod_eq_of_lt (by omega),
        ← Nat.zero_add (start + index - capacity), write_add hdrop,
        List.getElem_drop]
      congr 1
      omega
  kept := fun index hdata hcapacity => by
    rw [Nat.mod_eq_sub_mod (by omega), Nat.mod_eq_of_lt (by omega),
      write_of_le (by simp; omega), write_of_lt (by omega)]

/-- Storing behind a region extends it. -/
theorem RingStore.ringRead_append
    (hstore : RingStore memory memory' capacity ((start + length) % capacity)
      data) (hroom : length + data.length ≤ capacity) :
    ringRead memory' capacity start (length + data.length) =
      ringRead memory capacity start length ++ data := by
  apply List.ext_getElem
  · simp
  · intro index hindex _
    rw [length_ringRead] at hindex
    rw [getElem_ringRead, List.getElem_append]
    split
    case isTrue hold =>
      rw [length_ringRead] at hold
      have hplace : (start + index) % capacity =
          ((start + length) % capacity + (index + capacity - length)) %
            capacity := by
        rw [Nat.mod_add_mod]
        have hsum : start + length + (index + capacity - length) =
            start + index + capacity := by omega
        rw [hsum, Nat.add_mod_right]
      rw [getElem_ringRead, hplace, hstore.kept _ (by omega) (by omega)]
    case isFalse hnew =>
      simp only [length_ringRead] at hnew ⊢
      have hplace : (start + index) % capacity =
          ((start + length) % capacity + (index - length)) % capacity := by
        rw [Nat.mod_add_mod]
        congr 1
        omega
      rw [hplace, hstore.stored]

end Ring

end Sensor.Region
