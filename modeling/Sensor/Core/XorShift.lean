import Mathlib.Data.BitVec
import Mathlib.Logic.Function.Basic

/-!
# Steps that mix the bits of a word

A step joins a word by exclusive or with something computed from it.  If that
depends at each bit on lower bits only, or is a shift to the right that brings
zeros in, the step can be undone.  A shift to the right that repeats the sign
merges every word with its complement.
-/

namespace Sensor.XorShift

variable {w : ℕ}

/-! ## Steps to the left -/

/-- Each bit of the result depends on lower bits of the word only. -/
def Raises (raise : BitVec w → BitVec w) : Prop :=
  ∀ low < w, ∀ left right, left.setWidth low = right.setWidth low →
    (raise left).setWidth (low + 1) = (raise right).setWidth (low + 1)

/-- The word that `count` rounds find for the result of a step; each round makes
one more bit right. -/
def solve (raise : BitVec w → BitVec w) (result : BitVec w) : ℕ → BitVec w
  | 0 => 0
  | count + 1 => result ^^^ raise (solve raise result count)

/-- The word with this result. -/
def undoLeft (raise : BitVec w → BitVec w) (result : BitVec w) : BitVec w :=
  solve raise result w

/-- A step by a shift goes through exclusive or. -/
theorem xor_shiftLeft_xor (left right : BitVec w) (count : ℕ) :
    (left ^^^ right) ^^^ (left ^^^ right) <<< count =
      (left ^^^ left <<< count) ^^^ (right ^^^ right <<< count) := by
  rw [BitVec.shiftLeft_xor_distrib]
  ac_rfl

section Left

variable {raise other : BitVec w → BitVec w} {left right result : BitVec w}

theorem raises_shiftLeft {count : ℕ} (hcount : 0 < count) :
    Raises fun word : BitVec w => word <<< count := by
  intro low hlow left right hsame
  apply BitVec.eq_of_getLsbD_eq
  intro index hindex
  have hbit := congrArg (fun word => word.getLsbD (index - count)) hsame
  have hbelow : index - count < low ∨ index < count := by omega
  simp only [BitVec.getLsbD_setWidth] at hbit
  simp only [BitVec.getLsbD_setWidth, BitVec.getLsbD_shiftLeft]
  cases hbelow with
  | inl hbelow =>
      rw [decide_eq_true hbelow, Bool.true_and, Bool.true_and] at hbit
      rw [hbit]
  | inr hzero => simp [hzero]

theorem Raises.add (hraise : Raises raise) (hother : Raises other) :
    Raises fun word => raise word + other word := by
  intro low hlow left right hsame
  rw [BitVec.setWidth_add _ _ hlow, BitVec.setWidth_add _ _ hlow,
    hraise low hlow left right hsame, hother low hlow left right hsame]

/-- Words with the same result agree, one bit after the other. -/
theorem Raises.setWidth_eq (hraise : Raises raise)
    (hresult : left ^^^ raise left = right ^^^ raise right) {low : ℕ}
    (hlow : low ≤ w) : left.setWidth low = right.setWidth low := by
  induction low with
  | zero => exact BitVec.eq_of_zero_length rfl
  | succ low ih =>
      have hraised := hraise low hlow left right (ih (Nat.le_of_succ_le hlow))
      have hwidth := congrArg (BitVec.setWidth (low + 1)) hresult
      rw [BitVec.setWidth_xor, BitVec.setWidth_xor, hraised,
        BitVec.xor_left_inj] at hwidth
      exact hwidth

theorem Raises.injective (hraise : Raises raise) :
    Function.Injective fun word => word ^^^ raise word := by
  intro left right hresult
  have hwidth := hraise.setWidth_eq hresult (Nat.le_refl w)
  rwa [BitVec.setWidth_eq, BitVec.setWidth_eq] at hwidth

/-- After `count` rounds the low bits do not change any more. -/
theorem Raises.solve_eq (hraise : Raises raise) {count : ℕ}
    (hcount : count ≤ w) :
    (solve raise result count).setWidth count =
      (solve raise result (count + 1)).setWidth count := by
  induction count with
  | zero => exact BitVec.eq_of_zero_length rfl
  | succ count ih =>
      have hsame := ih (Nat.le_of_succ_le hcount)
      have hraised := hraise count hcount _ _ hsame
      rw [solve, BitVec.setWidth_xor, hraised, ← BitVec.setWidth_xor]
      rfl

/-- Every result has a word. -/
theorem Raises.undoLeft_xor (hraise : Raises raise) (result : BitVec w) :
    undoLeft raise result ^^^ raise (undoLeft raise result) = result := by
  have hstable := @Raises.solve_eq w raise result hraise w (Nat.le_refl w)
  rw [BitVec.setWidth_eq, BitVec.setWidth_eq] at hstable
  have hround : undoLeft raise result =
      result ^^^ raise (undoLeft raise result) := hstable
  rwa [← BitVec.xor_left_inj (raise (undoLeft raise result)),
    BitVec.xor_assoc, BitVec.xor_self, BitVec.xor_zero] at hround

end Left

/-! ## Steps to the right -/

/-- The word that `count` rounds find for the result of a step to the right. -/
def solveRight (shift : ℕ) (result : BitVec w) : ℕ → BitVec w
  | 0 => 0
  | count + 1 => result ^^^ solveRight shift result count >>> shift

/-- The word with this result. -/
def undoRight (shift : ℕ) (result : BitVec w) : BitVec w :=
  solveRight shift result w

section Right

variable {shift : ℕ} {word left right result : BitVec w}

/-- A word that a shift leaves as it is has one bit only, its sign. -/
theorem getLsbD_of_sshiftRight_eq (hshift : 0 < shift)
    (hsame : word.sshiftRight shift = word) {index : ℕ} (hindex : index < w) :
    word.getLsbD index = word.msb := by
  induction hdistance : w - index using Nat.strongRecOn generalizing index with
  | ind distance ih =>
      have hbit := BitVec.getLsbD_sshiftRight word shift index
      rw [hsame, decide_eq_false (Nat.not_le.mpr hindex), Bool.not_false,
        Bool.true_and] at hbit
      split at hbit
      case isTrue hinside =>
        rw [hbit]
        exact ih _ (by omega) hinside rfl
      case isFalse => exact hbit

theorem eq_zero_or_allOnes_of_sshiftRight_eq (hshift : 0 < shift)
    (hsame : word.sshiftRight shift = word) :
    word = 0 ∨ word = BitVec.allOnes w := by
  cases hsign : word.msb with
  | false =>
      left
      apply BitVec.eq_of_getLsbD_eq
      intro index hindex
      rw [getLsbD_of_sshiftRight_eq hshift hsame hindex, hsign]
      simp
  | true =>
      right
      apply BitVec.eq_of_getLsbD_eq
      intro index hindex
      rw [getLsbD_of_sshiftRight_eq hshift hsame hindex, hsign]
      simp [hindex]

theorem xor_eq_allOnes_iff :
    left ^^^ right = BitVec.allOnes w ↔ left = ~~~ right := by
  rw [← BitVec.allOnes_xor, ← BitVec.xor_left_inj right, BitVec.xor_assoc,
    BitVec.xor_self, BitVec.xor_zero]

theorem not_sshiftRight_eq (word : BitVec w) (shift : ℕ) :
    (~~~ word).sshiftRight shift = ~~~ word.sshiftRight shift := by
  have hnot := @BitVec.not_sshiftRight_not w word shift
  rw [← hnot, BitVec.not_not]

theorem not_xor_not : ~~~ left ^^^ ~~~ right = left ^^^ right := by
  rw [← BitVec.xor_allOnes, ← BitVec.xor_allOnes]
  calc left ^^^ BitVec.allOnes w ^^^ (right ^^^ BitVec.allOnes w)
    _ = left ^^^ right ^^^ (BitVec.allOnes w ^^^ BitVec.allOnes w) := by ac_rfl
    _ = left ^^^ right := by rw [BitVec.xor_self, BitVec.xor_zero]

/-- Where two joins are equal the differences of their parts are. -/
theorem xor_eq_xor_of_eq {left' right' : BitVec w}
    (hsame : left ^^^ left' = right ^^^ right') :
    left' ^^^ right' = left ^^^ right := by
  have hfirst : left ^^^ left' ^^^ (left ^^^ right') =
      left ^^^ left ^^^ (left' ^^^ right') := by ac_rfl
  have hsecond : right ^^^ right' ^^^ (left ^^^ right') =
      right' ^^^ right' ^^^ (left ^^^ right) := by ac_rfl
  rw [hsame, hsecond, BitVec.xor_self, BitVec.xor_self, BitVec.zero_xor,
    BitVec.zero_xor] at hfirst
  exact hfirst.symm

/-- A step that repeats the sign merges a word with its complement and with no
other. -/
theorem xor_sshiftRight_eq_iff (hshift : 0 < shift) :
    left ^^^ left.sshiftRight shift = right ^^^ right.sshiftRight shift ↔
      left = right ∨ left = ~~~ right := by
  constructor
  · intro hsame
    have hfixed : (left ^^^ right).sshiftRight shift = left ^^^ right := by
      rw [BitVec.sshiftRight_xor_distrib]
      exact xor_eq_xor_of_eq hsame
    cases eq_zero_or_allOnes_of_sshiftRight_eq hshift hfixed with
    | inl hzero => exact Or.inl (BitVec.xor_eq_zero_iff.mp hzero)
    | inr hones => exact Or.inr (xor_eq_allOnes_iff.mp hones)
  · intro hcases
    cases hcases with
    | inl hsame => rw [hsame]
    | inr hnot =>
        rw [hnot, not_sshiftRight_eq, not_xor_not]

/-- The sign of the result is clear. -/
theorem msb_xor_sshiftRight :
    (word ^^^ word.sshiftRight shift).msb = false := by
  rw [BitVec.msb_xor, BitVec.msb_sshiftRight, Bool.xor_self]

/-- With zeros brought in no two words meet. -/
theorem xor_ushiftRight_injective (hshift : 0 < shift) :
    Function.Injective fun word : BitVec w => word ^^^ word >>> shift := by
  intro left right hsame
  have hfixed : (left ^^^ right) >>> shift = left ^^^ right := by
    rw [BitVec.ushiftRight_xor_distrib]
    exact xor_eq_xor_of_eq hsame
  have hrepeated (count : ℕ) :
      (left ^^^ right) >>> (count * shift) = left ^^^ right := by
    induction count with
    | zero => rw [Nat.zero_mul, BitVec.ushiftRight_zero]
    | succ count ih => rw [Nat.succ_mul, BitVec.shiftRight_add, ih, hfixed]
  have hnone := hrepeated w
  rw [BitVec.ushiftRight_eq_zero (Nat.le_mul_of_pos_right w hshift)] at hnone
  exact BitVec.xor_eq_zero_iff.mp hnone.symm

/-- The rounds leave out only what the result has behind the last shift. -/
theorem solveRight_xor (count : ℕ) :
    solveRight shift result count ^^^ solveRight shift result count >>> shift =
      result ^^^ result >>> (count * shift) := by
  induction count with
  | zero => simp [solveRight]
  | succ count ih =>
      have hshifted : solveRight shift result count >>> shift ^^^
          solveRight shift result count >>> shift >>> shift =
            result >>> shift ^^^ result >>> (count * shift + shift) := by
        rw [← BitVec.ushiftRight_xor_distrib, ih,
          BitVec.ushiftRight_xor_distrib, BitVec.shiftRight_add]
      rw [solveRight, BitVec.ushiftRight_xor_distrib, Nat.succ_mul]
      calc result ^^^ solveRight shift result count >>> shift ^^^
            (result >>> shift ^^^
              solveRight shift result count >>> shift >>> shift)
        _ = result ^^^ (result >>> shift ^^^
              (solveRight shift result count >>> shift ^^^
                solveRight shift result count >>> shift >>> shift)) := by
            ac_rfl
        _ = result ^^^ result >>> (count * shift + shift) := by
            rw [hshifted, ← BitVec.xor_assoc (result >>> shift),
              BitVec.xor_self, BitVec.zero_xor]

theorem undoRight_xor (hshift : 0 < shift) (result : BitVec w) :
    undoRight shift result ^^^ undoRight shift result >>> shift = result := by
  rw [undoRight, solveRight_xor, BitVec.ushiftRight_eq_zero]
  · exact BitVec.xor_zero
  · exact Nat.le_mul_of_pos_right w hshift

theorem msb_solveRight (hshift : 0 < shift) (hsign : result.msb = false)
    (count : ℕ) : (solveRight shift result count).msb = false := by
  cases count with
  | zero => exact BitVec.msb_zero
  | succ count =>
      rw [solveRight, BitVec.msb_xor, hsign, BitVec.msb_ushiftRight,
        decide_eq_true hshift]
      rfl

/-- A result whose sign is clear has a word for a step that repeats the
sign. -/
theorem undoRight_sshiftRight (hshift : 0 < shift)
    (hsign : result.msb = false) :
    undoRight shift result ^^^ (undoRight shift result).sshiftRight shift =
      result := by
  have hclear : (undoRight shift result).msb = false :=
    msb_solveRight hshift hsign w
  rw [BitVec.sshiftRight_eq_of_msb_false hclear]
  exact undoRight_xor hshift result

end Right

end Sensor.XorShift
