import Mathlib.Data.List.Basic

/-!
# Bounded first-in first-out queues of cells

The abstract queue a fixed-size buffer implements: a list of at most `capacity`
cells, to which cells are appended as far as there is room and from which the
oldest are taken.
-/

namespace Sensor

/-- The cells stored, oldest first. -/
structure BoundedFifo (Cell : Type*) (capacity : ℕ) where
  stored : List Cell
  length_le : stored.length ≤ capacity

namespace BoundedFifo

variable {Cell : Type*} {capacity : ℕ}

def empty : BoundedFifo Cell capacity where
  stored := []
  length_le := Nat.zero_le _

def filled (fifo : BoundedFifo Cell capacity) : ℕ :=
  fifo.stored.length

def free (fifo : BoundedFifo Cell capacity) : ℕ :=
  capacity - fifo.filled

/-- Append the first cells of `data`, as many as there is room for. -/
def add (fifo : BoundedFifo Cell capacity) (data : List Cell) :
    BoundedFifo Cell capacity where
  stored := fifo.stored ++ data.take fifo.free
  length_le := by
    have hbound := fifo.length_le
    simp only [List.length_append, List.length_take, free, filled]
    omega

/-- The oldest cells, at most `count`. -/
def pick (fifo : BoundedFifo Cell capacity) (count : ℕ) : List Cell :=
  fifo.stored.take count

/-- Remove the oldest cells, at most `count`. -/
def discard (fifo : BoundedFifo Cell capacity) (count : ℕ) :
    BoundedFifo Cell capacity where
  stored := fifo.stored.drop count
  length_le := by
    have hbound := fifo.length_le
    rw [List.length_drop]
    omega

theorem filled_le (fifo : BoundedFifo Cell capacity) :
    fifo.filled ≤ capacity :=
  fifo.length_le

theorem filled_add (fifo : BoundedFifo Cell capacity) (data : List Cell) :
    (fifo.add data).filled = fifo.filled + min data.length fifo.free := by
  simp [add, filled, Nat.min_comm]

theorem filled_discard (fifo : BoundedFifo Cell capacity) (count : ℕ) :
    (fifo.discard count).filled = fifo.filled - count := by
  simp [discard, filled]

theorem length_pick (fifo : BoundedFifo Cell capacity) (count : ℕ) :
    (fifo.pick count).length = min count fifo.filled := by
  simp [pick, filled]

end BoundedFifo

end Sensor
