import Sensor.Core.Region

/-!
# Words in a little-endian memory

A processor that keeps the low byte of a word first, and the conversions to
and from the network order, in which the high byte is first.
-/

namespace Sensor.ByteOrder

open Region

abbrev Byte := BitVec 8

/-- The bytes of a 16-bit word as the processor stores them. -/
def bytes16 (word : BitVec 16) : List Byte :=
  [word.extractLsb' 0 8, word.extractLsb' 8 8]

/-- The bytes of a 32-bit word as the processor stores them. -/
def bytes32 (word : BitVec 32) : List Byte :=
  [word.extractLsb' 0 8, word.extractLsb' 8 8, word.extractLsb' 16 8,
    word.extractLsb' 24 8]

def load16 (memory : ℕ → Byte) (place : ℕ) : BitVec 16 :=
  memory (place + 1) ++ memory place

def load32 (memory : ℕ → Byte) (place : ℕ) : BitVec 32 :=
  memory (place + 3) ++ memory (place + 2) ++ memory (place + 1) ++
    memory place

/-- `htons` and `ntohs`. -/
def swap16 (word : BitVec 16) : BitVec 16 :=
  word.extractLsb' 0 8 ++ word.extractLsb' 8 8

/-- `htonl` and `ntohl`. -/
def swap32 (word : BitVec 32) : BitVec 32 :=
  word.extractLsb' 0 8 ++ word.extractLsb' 8 8 ++ word.extractLsb' 16 8 ++
    word.extractLsb' 24 8

@[simp]
theorem length_bytes16 {word : BitVec 16} : (bytes16 word).length = 2 := rfl

@[simp]
theorem length_bytes32 {word : BitVec 32} : (bytes32 word).length = 4 := rfl

/-- A word is loaded as it was stored. -/
theorem load16_of_read {memory : ℕ → Byte} {place : ℕ} {word : BitVec 16}
    (hread : read memory place 2 = bytes16 word) :
    load16 memory place = word := by
  have hbytes : [memory place, memory (place + 1)] = bytes16 word := hread
  simp only [bytes16, List.cons.injEq, and_true] at hbytes
  obtain ⟨hlow, hhigh⟩ := hbytes
  rw [load16, hlow, hhigh]
  ext index
  grind

/-- A word is loaded as it was stored. -/
theorem load32_of_read {memory : ℕ → Byte} {place : ℕ} {word : BitVec 32}
    (hread : read memory place 4 = bytes32 word) :
    load32 memory place = word := by
  have hbytes : [memory place, memory (place + 1), memory (place + 2),
      memory (place + 3)] = bytes32 word := hread
  simp only [bytes32, List.cons.injEq, and_true] at hbytes
  obtain ⟨hfirst, hsecond, hthird, hfourth⟩ := hbytes
  rw [load32, hfirst, hsecond, hthird, hfourth]
  ext index
  grind

/-- A word is stored as it is loaded. -/
theorem read_of_load16 {memory : ℕ → Byte} {place : ℕ} {word : BitVec 16}
    (hload : load16 memory place = word) :
    read memory place 2 = bytes16 word := by
  have hlow : word.extractLsb' 0 8 = memory place := by
    rw [← hload, load16]
    exact BitVec.extractLsb'_append_eq_right
  have hhigh : word.extractLsb' 8 8 = memory (place + 1) := by
    rw [← hload, load16]
    exact BitVec.extractLsb'_append_eq_left
  rw [bytes16, hlow, hhigh]
  rfl

/-- Four bytes, the last the low one, put together to a word. -/
theorem extractLsb'_append_bytes (first second third fourth : Byte) :
    (first ++ second ++ third ++ fourth : BitVec 32).extractLsb' 0 8 = fourth ∧
    (first ++ second ++ third ++ fourth : BitVec 32).extractLsb' 8 8 = third ∧
    (first ++ second ++ third ++ fourth : BitVec 32).extractLsb' 16 8 =
      second ∧
    (first ++ second ++ third ++ fourth : BitVec 32).extractLsb' 24 8 =
      first := by
  refine ⟨?_, ?_, ?_, ?_⟩
  · ext index
    grind
  · ext index
    grind
  · ext index
    grind
  · ext index
    grind

/-- A word is made of its bytes. -/
theorem append_extractLsb' (word : BitVec 32) :
    word.extractLsb' 24 8 ++ word.extractLsb' 16 8 ++ word.extractLsb' 8 8 ++
      word.extractLsb' 0 8 = word := by
  ext index
  grind

/-- A word is stored as it is loaded. -/
theorem read_of_load32 {memory : ℕ → Byte} {place : ℕ} {word : BitVec 32}
    (hload : load32 memory place = word) :
    read memory place 4 = bytes32 word := by
  obtain ⟨hfirst, hsecond, hthird, hfourth⟩ := extractLsb'_append_bytes
    (memory (place + 3)) (memory (place + 2)) (memory (place + 1))
    (memory place)
  rw [← hload, load32, bytes32, hfirst, hsecond, hthird, hfourth]
  rfl

/-- The conversions undo each other. -/
@[simp]
theorem swap32_swap32 {word : BitVec 32} : swap32 (swap32 word) = word := by
  obtain ⟨hfirst, hsecond, hthird, hfourth⟩ := extractLsb'_append_bytes
    (word.extractLsb' 0 8) (word.extractLsb' 8 8) (word.extractLsb' 16 8)
    (word.extractLsb' 24 8)
  rw [swap32, swap32, hfirst, hsecond, hthird, hfourth, append_extractLsb']

theorem swap32_and {left right : BitVec 32} :
    swap32 (left &&& right) = swap32 left &&& swap32 right := by
  simp only [swap32]
  ext index
  grind

theorem swap16_injective : Function.Injective swap16 := by
  have hswap : Function.LeftInverse swap16 swap16 := by
    intro word
    simp only [swap16]
    ext index
    grind
  exact hswap.injective

theorem swap32_injective : Function.Injective swap32 :=
  Function.LeftInverse.injective fun _ => swap32_swap32

end Sensor.ByteOrder
