import Mathlib.Data.BitVec
import Sensor.Base.TsHashTable
import Sensor.Core.XorShift

/-!
# Collisions of `spread_hash`

`spread_hash` mixes its argument in six steps.  It computes on `int`, so its
shifts to the right repeat the sign, and such a step merges every value with its
complement.  The first and the last of the three bring collisions; the one
between them does not, because no two complements reach it.
-/

namespace Sensor.TsHashTable

open XorShift

/-! ## The values that meet -/

/-- The first statement of `spread_hash`; four more follow, each by its
number. -/
def firstStep (h : BitVec 32) : BitVec 32 := h ^^^ ((h <<< 15) ^^^ 0xcd7dcd7d)

def secondStep (h : BitVec 32) : BitVec 32 := h ^^^ h.sshiftRight 10

def thirdStep (h : BitVec 32) : BitVec 32 := h ^^^ (h <<< 3)

def fourthStep (h : BitVec 32) : BitVec 32 := h ^^^ h.sshiftRight 6

def fifthStep (h : BitVec 32) : BitVec 32 := h ^^^ ((h <<< 2) + (h <<< 14))

def fourSteps (h : BitVec 32) : BitVec 32 :=
  fourthStep (thirdStep (secondStep (firstStep h)))

/-- What the third step takes to `h` or to its complement, without sign. -/
def undoThird (h : BitVec 32) : BitVec 32 :=
  let word := undoLeft (· <<< 3) h
  if word.msb then word ^^^ 0xc71c71c7 else word

/-- What the first four steps take to `h`. -/
def undoFour (h : BitVec 32) : BitVec 32 :=
  undoLeft (· <<< 15)
    (undoRight 10 (undoThird (undoRight 6 h)) ^^^ 0xcd7dcd7d)

/-- A value that five steps take to the complement of where they take `h`, if
there is one: only values without sign come out of the fourth. -/
def mirror (h : BitVec 32) : Option (BitVec 32) :=
  let other := undoLeft (fun h => (h <<< 2) + (h <<< 14))
    (~~~ fifthStep (fourSteps h))
  if other.msb then none else some (undoFour other)

/-- The other values with the hash of `h`: one or three of them. -/
def partners (h : BitVec 32) : List (BitVec 32) :=
  (h ^^^ 0xc0007fff) ::
    match mirror h with
    | none => []
    | some other => [other, other ^^^ 0xc0007fff]

/-! ## The steps -/

section Steps

variable {left right h : BitVec 32}

theorem spreadHash_eq :
    spreadHash h = fifthStep (fourSteps h) ^^^
      (fifthStep (fourSteps h)).sshiftRight 16 := by
  rfl

theorem firstStep_eq : firstStep h = (h ^^^ h <<< 15) ^^^ 0xcd7dcd7d :=
  (BitVec.xor_assoc _ _ _).symm

theorem firstStep_injective : Function.Injective firstStep := by
  intro left right hsame
  rw [firstStep_eq, firstStep_eq, BitVec.xor_left_inj] at hsame
  have hraises : Raises fun h : BitVec 32 => h <<< 15 :=
    raises_shiftLeft (by decide)
  exact hraises.injective hsame

theorem thirdStep_injective : Function.Injective thirdStep := by
  have hraises : Raises fun h : BitVec 32 => h <<< 3 :=
    raises_shiftLeft (by decide)
  exact hraises.injective

theorem raises_fifthStep :
    Raises fun h : BitVec 32 => (h <<< 2) + (h <<< 14) :=
  (raises_shiftLeft (by decide)).add (raises_shiftLeft (by decide))

theorem fifthStep_injective : Function.Injective fifthStep :=
  raises_fifthStep.injective

/-- The first step complements its result with these bits. -/
theorem firstStep_xor : firstStep (h ^^^ 0xc0007fff) = ~~~ firstStep h := by
  have hones : (0xc0007fff : BitVec 32) ^^^ (0xc0007fff : BitVec 32) <<< 15 =
      BitVec.allOnes 32 := by decide
  rw [firstStep_eq, firstStep_eq, xor_shiftLeft_xor, hones, BitVec.xor_allOnes,
    ← BitVec.not_xor_left]

/-- The third step complements its result with these bits. -/
theorem thirdStep_xor : thirdStep (h ^^^ 0xc71c71c7) = ~~~ thirdStep h := by
  have hones : (0xc71c71c7 : BitVec 32) ^^^ (0xc71c71c7 : BitVec 32) <<< 3 =
      BitVec.allOnes 32 := by decide
  rw [thirdStep, thirdStep, xor_shiftLeft_xor, hones, BitVec.xor_allOnes]

theorem secondStep_eq_iff :
    secondStep left = secondStep right ↔ left = right ∨ left = ~~~ right :=
  xor_sshiftRight_eq_iff (by decide)

theorem fourthStep_eq_iff :
    fourthStep left = fourthStep right ↔ left = right ∨ left = ~~~ right :=
  xor_sshiftRight_eq_iff (by decide)

theorem msb_secondStep : (secondStep h).msb = false := msb_xor_sshiftRight

theorem msb_fourSteps : (fourSteps h).msb = false := msb_xor_sshiftRight

/-- The third step does not take values without sign to complements. -/
theorem thirdStep_ne_not (hleft : left.msb = false)
    (hright : right.msb = false) :
    thirdStep left ≠ ~~~ thirdStep right := by
  intro hsame
  rw [← thirdStep_xor] at hsame
  have hsign := congrArg BitVec.msb (thirdStep_injective hsame)
  rw [BitVec.msb_xor, hleft, hright] at hsign
  exact absurd hsign (by decide)

/-- Of the first four steps only the second one merges. -/
theorem fourSteps_eq_iff :
    fourSteps left = fourSteps right ↔
      left = right ∨ left = right ^^^ 0xc0007fff := by
  rw [fourSteps, fourSteps, fourthStep_eq_iff,
    or_iff_left (thirdStep_ne_not msb_secondStep msb_secondStep),
    thirdStep_injective.eq_iff, secondStep_eq_iff, ← firstStep_xor,
    firstStep_injective.eq_iff, firstStep_injective.eq_iff]

/-- The last step merges complements again. -/
theorem spreadHash_eq_iff :
    spreadHash left = spreadHash right ↔
      fifthStep (fourSteps left) = fifthStep (fourSteps right) ∨
        fifthStep (fourSteps left) = ~~~ fifthStep (fourSteps right) := by
  rw [spreadHash_eq, spreadHash_eq]
  exact xor_sshiftRight_eq_iff (by decide)

/-! ## Undoing the steps -/

theorem firstStep_undo :
    firstStep (undoLeft (· <<< 15) (h ^^^ 0xcd7dcd7d)) = h := by
  have hraises : Raises fun h : BitVec 32 => h <<< 15 :=
    raises_shiftLeft (by decide)
  rw [firstStep_eq, hraises.undoLeft_xor, BitVec.xor_assoc, BitVec.xor_self,
    BitVec.xor_zero]

theorem thirdStep_undoThird :
    thirdStep (undoThird h) = h ∨ thirdStep (undoThird h) = ~~~ h := by
  have hraises : Raises fun h : BitVec 32 => h <<< 3 :=
    raises_shiftLeft (by decide)
  have hundo : thirdStep (undoLeft (· <<< 3) h) = h := hraises.undoLeft_xor h
  rw [undoThird]
  split
  · right
    rw [thirdStep_xor, hundo]
  · exact Or.inl hundo

theorem msb_undoThird : (undoThird h).msb = false := by
  rw [undoThird]
  split
  case isTrue hsign =>
    rw [BitVec.msb_xor, hsign]
    decide
  case isFalse hsign => exact Bool.eq_false_iff.mpr hsign

theorem fourSteps_undoFour (hsign : h.msb = false) :
    fourSteps (undoFour h) = h := by
  have hfourth : fourthStep (undoRight 6 h) = h :=
    undoRight_sshiftRight (by decide) hsign
  have hsecond : secondStep (undoRight 10 (undoThird (undoRight 6 h))) =
      undoThird (undoRight 6 h) :=
    undoRight_sshiftRight (by decide) msb_undoThird
  rw [fourSteps, undoFour, firstStep_undo, hsecond]
  calc fourthStep (thirdStep (undoThird (undoRight 6 h)))
    _ = fourthStep (undoRight 6 h) :=
        fourthStep_eq_iff.mpr thirdStep_undoThird
    _ = h := hfourth

/-- The values that five steps take to the complement of where they take
`right`. -/
theorem fifthStep_eq_not_iff :
    fifthStep (fourSteps left) = ~~~ fifthStep (fourSteps right) ↔
      ∃ other ∈ mirror right, left = other ∨ left = other ^^^ 0xc0007fff := by
  have hother : fifthStep (undoLeft (fun h => (h <<< 2) + (h <<< 14))
      (~~~ fifthStep (fourSteps right))) = ~~~ fifthStep (fourSteps right) :=
    raises_fifthStep.undoLeft_xor _
  rw [← hother, fifthStep_injective.eq_iff, mirror]
  split
  case isTrue hsign =>
    apply iff_of_false
    · intro hsame
      rw [← hsame, msb_fourSteps] at hsign
      exact Bool.false_ne_true hsign
    · rintro ⟨other, hnone, -⟩
      cases hnone
  case isFalse hsign =>
    have hundo := fourSteps_undoFour (Bool.eq_false_iff.mpr hsign)
    conv_lhs => rw [← hundo, fourSteps_eq_iff]
    simp

/-- The partners in terms of the steps. -/
theorem mem_partners_iff :
    left ∈ partners right ↔ left = right ^^^ 0xc0007fff ∨
      fifthStep (fourSteps left) = ~~~ fifthStep (fourSteps right) := by
  rw [fifthStep_eq_not_iff, partners, List.mem_cons]
  cases mirror right with
  | none => simp
  | some other => simp

/-- A value and its partners have one hash, and no other value has it. -/
theorem spreadHash_eq_iff_mem :
    spreadHash left = spreadHash right ↔
      left = right ∨ left ∈ partners right := by
  rw [spreadHash_eq_iff, fifthStep_injective.eq_iff, fourSteps_eq_iff,
    or_assoc, mem_partners_iff]

/-- No value is a partner of its own. -/
theorem notMem_partners : h ∉ partners h := by
  rw [mem_partners_iff]
  rintro (hsame | hnot)
  · have hzero : h ^^^ h = h ^^^ (h ^^^ 0xc0007fff) := congrArg (h ^^^ ·) hsame
    rw [BitVec.xor_self, ← BitVec.xor_assoc, BitVec.xor_self,
      BitVec.zero_xor] at hzero
    exact absurd hzero (by decide)
  · exact BitVec.ne_not_self (by decide) hnot

end Steps

/-! ## On the unsigned type of the hashes -/

/-- The six steps on `hash_t`, whose shifts to the right bring zeros in. -/
def spreadUnsigned (h : BitVec 32) : BitVec 32 :=
  let h := h ^^^ ((h <<< 15) ^^^ 0xcd7dcd7d)
  let h := h ^^^ h >>> 10
  let h := h ^^^ (h <<< 3)
  let h := h ^^^ h >>> 6
  let h := h ^^^ ((h <<< 2) + (h <<< 14))
  h ^^^ h >>> 16

/-- There each step can be undone. -/
theorem spreadUnsigned_injective : Function.Injective spreadUnsigned := by
  have hright {shift : ℕ} (hshift : 0 < shift) :
      Function.Injective fun h : BitVec 32 => h ^^^ h >>> shift :=
    xor_ushiftRight_injective hshift
  have hsecond := (hright (show 0 < 10 by decide)).comp firstStep_injective
  have hfourth := (hright (show 0 < 6 by decide)).comp
    (thirdStep_injective.comp hsecond)
  exact (hright (show 0 < 16 by decide)).comp (fifthStep_injective.comp hfourth)

/-! ## The collisions -/

/-- `spread_hash` keeps a value apart from all others but its partners, and the
hashes of keys tell their values of `times33` apart as far as these are no
partners. -/
theorem adds_no_collision_iff {Key : Type*} (keys : KeyOps Key) :
    (∀ left right, (left ≠ right → spreadHash left ≠ spreadHash right) ↔
      left ∉ partners right) ∧
    ∀ left right : Key,
      (hashOf keys left = hashOf keys right →
        times33 (keys.bytes left) = times33 (keys.bytes right)) ↔
      times33 (keys.bytes left) ∉ partners (times33 (keys.bytes right)) := by
  have hkept : ∀ left right,
      (spreadHash left = spreadHash right → left = right) ↔
        left ∉ partners right := by
    intro left right
    rw [spreadHash_eq_iff_mem]
    constructor
    · intro hsame hmem
      rw [hsame (Or.inr hmem)] at hmem
      exact notMem_partners hmem
    · intro hmem hcases
      exact hcases.resolve_right hmem
  constructor
  · intro left right
    rw [← hkept, not_imp_not]
  · intro left right
    exact hkept _ _

/-- Keys of eight bytes that are equal when their bytes are. -/
def wordKeys : KeyOps (Vector (BitVec 8) 8) where
  size := 8
  bytes := id
  equal := fun left right => left = right

/-- Two values and two keys that only `spread_hash` merges. -/
theorem merges_zero :
    (¬ ∀ left right : BitVec 32,
      left ≠ right → spreadHash left ≠ spreadHash right) ∧
    ¬ ∀ left right, hashOf wordKeys left = hashOf wordKeys right →
      times33 (wordKeys.bytes left) = times33 (wordKeys.bytes right) := by
  constructor
  · intro hkept
    exact hkept 0 0xc0007fff (by decide) (by decide)
  · intro hkept
    exact absurd (hkept #v[0, 0, 0, 0, 0, 0, 0, 0]
      #v[0, 255, 6, 242, 243, 15, 9, 253] (by decide)) (by decide)

end Sensor.TsHashTable
