import Mathlib

/-!
# The arithmetic of `size_t` and `int`

A `size_t` is a natural number below `2 ^ 64`; its operations wrap around.  An
`int` has 32 bits; the conversions between the two truncate and extend the
sign.
-/

namespace Sensor.SizeT

def add (left right : ℕ) : ℕ :=
  (left + right) % 2 ^ 64

def sub (left right : ℕ) : ℕ :=
  (left + (2 ^ 64 - right % 2 ^ 64)) % 2 ^ 64

/-- The conversion of a `size_t` to `int`. -/
def toInt (value : ℕ) : ℤ :=
  if value % 2 ^ 32 < 2 ^ 31 then (value % 2 ^ 32 : ℕ)
  else (value % 2 ^ 32 : ℕ) - 2 ^ 32

/-- The conversion of an `int` to `size_t`. -/
def ofInt (value : ℤ) : ℕ :=
  (value % 2 ^ 64).toNat

/-- The conversion of a `size_t` to `float`: the nearest value of 24 significant
bits, on a tie the one with an even last bit. -/
def toFloat (value : ℕ) : ℕ :=
  if value < 2 ^ 24 then value
  else
    let unit := 2 ^ (value.log2 - 23)
    let below := value / unit
    if 2 * (value % unit) < unit then below * unit
    else if 2 * (value % unit) > unit then (below + 1) * unit
    else if below % 2 = 0 then below * unit else (below + 1) * unit

theorem add_of_lt {left right : ℕ} (hsum : left + right < 2 ^ 64) :
    add left right = left + right :=
  Nat.mod_eq_of_lt hsum

theorem sub_of_le {left right : ℕ} (hle : right ≤ left)
    (hleft : left < 2 ^ 64) : sub left right = left - right := by
  simp only [sub]
  omega

theorem toInt_eq_iff {value : ℕ} :
    toInt value = value ↔ value < 2 ^ 31 := by
  simp only [toInt]
  split
  · omega
  · omega

theorem toInt_le (value : ℕ) : toInt value ≤ value := by
  simp only [toInt]
  split
  · omega
  · omega

theorem ofInt_natCast {value : ℕ} (hvalue : value < 2 ^ 64) :
    ofInt value = value := by
  simp only [ofInt]
  omega

/-- A result that went through `size_t` comes back as the same `int`. -/
theorem toInt_ofInt_toInt {value : ℕ} :
    toInt (ofInt (toInt value)) = toInt value := by
  simp only [toInt, ofInt]
  split
  · split <;> omega
  · split <;> omega

/-! ## Rounding to `float` -/

/-- Rounding goes no further down than to the next multiple of the unit. -/
theorem div_mul_le_toFloat {value : ℕ} (hlarge : 2 ^ 24 ≤ value) :
    value / 2 ^ (value.log2 - 23) * 2 ^ (value.log2 - 23) ≤ toFloat value := by
  have hnext : value / 2 ^ (value.log2 - 23) * 2 ^ (value.log2 - 23) ≤
      (value / 2 ^ (value.log2 - 23) + 1) * 2 ^ (value.log2 - 23) :=
    Nat.mul_le_mul_right _ (Nat.le_succ _)
  rw [toFloat, if_neg (Nat.not_lt.mpr hlarge)]
  dsimp only
  split_ifs
  · exact le_rfl
  · exact hnext
  · exact le_rfl
  · exact hnext

/-- Rounding passes no number of few significant bits. -/
theorem le_toFloat_of_le {factor exponent value : ℕ} (hfactor : factor < 2 ^ 23)
    (hle : factor * 2 ^ exponent ≤ value) :
    factor * 2 ^ exponent ≤ toFloat value := by
  by_cases hlarge : 2 ^ 24 ≤ value
  · apply le_trans _ (div_mul_le_toFloat hlarge)
    have hbits : 24 ≤ value.log2 := (Nat.le_log2 (by omega)).mpr hlarge
    have hlog : 2 ^ value.log2 ≤ value := Nat.log2_self_le (by omega)
    by_cases hunit : value.log2 - 23 ≤ exponent
    · -- the number is a multiple of the unit
      have hsplit : factor * 2 ^ exponent =
          factor * 2 ^ (exponent - (value.log2 - 23)) *
            2 ^ (value.log2 - 23) := by
        rw [mul_assoc, ← pow_add, Nat.sub_add_cancel hunit]
      rw [hsplit] at hle ⊢
      exact Nat.mul_le_mul_right _
        ((Nat.le_div_iff_mul_le (Nat.two_pow_pos _)).mpr hle)
    · -- the number is below the highest bit of the value
      have hsplit : 2 ^ value.log2 = 2 ^ 23 * 2 ^ (value.log2 - 23) := by
        rw [← pow_add, Nat.add_sub_cancel' (by omega)]
      have hquotient : 2 ^ 23 ≤ value / 2 ^ (value.log2 - 23) :=
        (Nat.le_div_iff_mul_le (Nat.two_pow_pos _)).mpr (hsplit ▸ hlog)
      calc factor * 2 ^ exponent ≤ 2 ^ 23 * 2 ^ (value.log2 - 23) :=
            Nat.mul_le_mul hfactor.le
              (Nat.pow_le_pow_right Nat.two_pos (Nat.not_le.mp hunit).le)
        _ ≤ _ := Nat.mul_le_mul_right _ hquotient
  · rw [toFloat, if_pos (Nat.not_le.mp hlarge)]
    exact hle

/-- A power of two is a `float`. -/
theorem toFloat_two_pow (exponent : ℕ) :
    toFloat (2 ^ exponent) = 2 ^ exponent := by
  rw [toFloat]
  split
  case isTrue => rfl
  case isFalse hlarge =>
    have hbits : 24 ≤ exponent :=
      (Nat.pow_le_pow_iff_right Nat.one_lt_two).mp (Nat.not_lt.mp hlarge)
    have hsplit : 2 ^ exponent = 2 ^ 23 * 2 ^ (exponent - 23) := by
      rw [← pow_add, Nat.add_sub_cancel' (by omega)]
    have hlog : Nat.log2 (2 ^ exponent) = exponent := Nat.log2_two_pow
    have hrest : 2 ^ exponent % 2 ^ (exponent - 23) = 0 := by
      rw [hsplit, Nat.mul_mod_left]
    dsimp only
    rw [hlog, hrest, if_pos (Nat.two_pow_pos _),
      Nat.div_mul_cancel (Nat.dvd_of_mod_eq_zero hrest)]

end Sensor.SizeT
