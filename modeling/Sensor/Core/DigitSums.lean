import Mathlib.Data.Nat.Digits.Lemmas

/-!
# Sums of digits inside a word

A word holds a number in each of its digits of `k` bits.  Masks that leave every
digit its own bits work digit by digit, neighbouring digits add up in one
addition, and the remainder modulo `2 ^ k - 1` adds all of them.
-/

namespace Sensor.DigitSums

open Nat (ofDigits)

variable {k : ℕ} {digits sums masks : List ℕ}

/-! ## Digits -/

/-- The `count` lowest digits of `n`, the lowest first. -/
def lowDigits (base : ℕ) : ℕ → ℕ → List ℕ
  | 0, _ => []
  | count + 1, n => n % base :: lowDigits base count (n / base)

theorem ofDigits_lowDigits {base count n : ℕ} (hlt : n < base ^ count) :
    ofDigits base (lowDigits base count n) = n := by
  induction count generalizing n with
  | zero =>
      have hzero : n = 0 := by simpa using hlt
      rw [lowDigits, Nat.ofDigits_nil, hzero]
  | succ count ih =>
      have hrest : n / base < base ^ count :=
        Nat.div_lt_of_lt_mul (by rwa [pow_succ'] at hlt)
      rw [lowDigits, Nat.ofDigits_cons, ih hrest, Nat.mod_add_div]

theorem lt_of_mem_lowDigits {base count n digit : ℕ} (hbase : 0 < base)
    (hdigit : digit ∈ lowDigits base count n) : digit < base := by
  induction count generalizing n with
  | zero => simp [lowDigits] at hdigit
  | succ count ih =>
      rw [lowDigits, List.mem_cons] at hdigit
      cases hdigit with
      | inl hhead => exact hhead ▸ Nat.mod_lt n hbase
      | inr htail => exact ih htail

/-- Numbers add digit by digit, whether or not the sums are digits. -/
theorem ofDigits_map_add (base : ℕ) (f g : ℕ → ℕ) (digits : List ℕ) :
    ofDigits base (digits.map fun digit => f digit + g digit) =
      ofDigits base (digits.map f) + ofDigits base (digits.map g) := by
  induction digits with
  | nil => rfl
  | cons digit digits ih =>
      simp only [List.map_cons, Nat.ofDigits_cons, ih]
      ring

/-- The remainder of a number in base `base + 1` is the one of the sum of its
digits. -/
theorem ofDigits_mod_eq_sum_mod (base : ℕ) (digits : List ℕ) :
    ofDigits (base + 1) digits % base = digits.sum % base := by
  have hmod : base + 1 ≡ 1 [MOD base] := by simp [Nat.ModEq]
  rw [← Nat.ofDigits_one digits]
  exact Nat.ofDigits_modEq' _ _ _ hmod digits

/-! ## Masks -/

theorem and_eq_low_add_high (k left right : ℕ) :
    left &&& right = (left % 2 ^ k &&& right % 2 ^ k) +
      2 ^ k * (left / 2 ^ k &&& right / 2 ^ k) := by
  rw [← Nat.and_mod_two_pow, ← Nat.and_div_two_pow, Nat.mod_add_div]

theorem and_digit_add {mask : ℕ} (hmask : mask < 2 ^ k) (n rest : ℕ) :
    n &&& (mask + 2 ^ k * rest) =
      (n % 2 ^ k &&& mask) + 2 ^ k * (n / 2 ^ k &&& rest) := by
  have hlow : (mask + 2 ^ k * rest) % 2 ^ k = mask := by
    rw [Nat.add_mul_mod_self_left, Nat.mod_eq_of_lt hmask]
  have hhigh : (mask + 2 ^ k * rest) / 2 ^ k = rest := by
    rw [Nat.add_mul_div_left _ _ (Nat.two_pow_pos k),
      Nat.div_eq_of_lt hmask, Nat.zero_add]
  rw [and_eq_low_add_high k, hlow, hhigh]

/-- The mask keeps what a shift moves inside one digit. -/
theorem shiftRight_and_replicate {shift : ℕ} (hshift : shift ≤ k)
    (hdigits : ∀ digit ∈ digits, digit < 2 ^ k) :
    ofDigits (2 ^ k) digits >>> shift &&&
        ofDigits (2 ^ k) (List.replicate digits.length (2 ^ (k - shift) - 1)) =
      ofDigits (2 ^ k) (digits.map (· >>> shift)) := by
  induction digits with
  | nil => simp
  | cons digit digits ih =>
      have hdigit : digit < 2 ^ k := hdigits digit List.mem_cons_self
      have hrest := ih fun other hother =>
        hdigits other (List.mem_cons_of_mem digit hother)
      have hpow : 2 ^ k = 2 ^ shift * 2 ^ (k - shift) := by
        rw [← pow_add, Nat.add_sub_cancel' hshift]
      have hmask : 2 ^ (k - shift) - 1 < 2 ^ k :=
        (Nat.sub_lt (Nat.two_pow_pos _) Nat.one_pos).trans_le
          (Nat.pow_le_pow_right Nat.two_pos (Nat.sub_le k shift))
      have hlow : (digit + 2 ^ k * ofDigits (2 ^ k) digits) / 2 ^ shift %
          2 ^ k % 2 ^ (k - shift) = digit / 2 ^ shift := by
        rw [Nat.mod_mod_of_dvd _ (Nat.pow_dvd_pow 2 (Nat.sub_le k shift)),
          ← Nat.mod_mul_right_div_self, ← hpow, Nat.add_mul_mod_self_left,
          Nat.mod_eq_of_lt hdigit]
      have hhigh : (digit + 2 ^ k * ofDigits (2 ^ k) digits) / 2 ^ shift /
          2 ^ k = ofDigits (2 ^ k) digits >>> shift := by
        rw [Nat.div_right_comm, Nat.add_mul_div_left _ _ (Nat.two_pow_pos k),
          Nat.div_eq_of_lt hdigit, Nat.zero_add, Nat.shiftRight_eq_div_pow]
      rw [List.length_cons, List.replicate_succ, List.map_cons,
        Nat.ofDigits_cons, Nat.ofDigits_cons, Nat.ofDigits_cons,
        and_digit_add hmask, Nat.and_two_pow_sub_one_eq_mod,
        Nat.shiftRight_eq_div_pow, hlow, hhigh, hrest,
        Nat.shiftRight_eq_div_pow]

/-! ## Neighbours -/

/-- The sum of each digit at an even place and the one above it. -/
def pairSums : List ℕ → List ℕ
  | [] => []
  | [digit] => [digit]
  | low :: high :: digits => (low + high) :: pairSums digits

theorem sum_pairSums (digits : List ℕ) :
    (pairSums digits).sum = digits.sum := by
  induction digits using pairSums.induct with
  | case1 => rfl
  | case2 digit => rfl
  | case3 low high digits ih =>
      simp only [pairSums, List.sum_cons, ih]
      ring

/-- The mask fits a digit of `k` bits and leaves the sum as it is. -/
def Keeps (k mask sum : ℕ) : Prop :=
  mask < 2 ^ k ∧ sum &&& mask = sum

/-- The lowest digit is one of the digits, or zero. -/
theorem two_mul_ofDigits_mod_lt
    (hdigits : ∀ digit ∈ digits, 2 * digit < 2 ^ k) :
    2 * (ofDigits (2 ^ k) digits % 2 ^ k) < 2 ^ k := by
  cases digits with
  | nil => simp
  | cons digit digits =>
      have hhalf := hdigits digit List.mem_cons_self
      have hdigit : digit < 2 ^ k := by omega
      rwa [Nat.ofDigits_cons, Nat.add_mul_mod_self_left,
        Nat.mod_eq_of_lt hdigit]

/-- The sum of a number and the number without its lowest digit, two digits at
a time. -/
theorem add_shiftRight_eq {low high : ℕ} (hlow : low < 2 ^ k) (rest : ℕ) :
    (low + 2 ^ k * (high + 2 ^ k * rest)) +
        (low + 2 ^ k * (high + 2 ^ k * rest)) >>> k =
      (low + high) + 2 ^ k * ((high + rest % 2 ^ k) +
        2 ^ k * (rest + rest >>> k)) := by
  have hshift : (low + 2 ^ k * (high + 2 ^ k * rest)) >>> k =
      high + 2 ^ k * rest := by
    rw [Nat.shiftRight_eq_div_pow,
      Nat.add_mul_div_left _ _ (Nat.two_pow_pos k), Nat.div_eq_of_lt hlow,
      Nat.zero_add]
  have hrest := Nat.mod_add_div rest (2 ^ k)
  rw [hshift, Nat.shiftRight_eq_div_pow]
  calc _ = low + 2 ^ k * (high + 2 ^ k * rest) +
        (high + 2 ^ k * (rest % 2 ^ k + 2 ^ k * (rest / 2 ^ k))) := by
          rw [hrest]
    _ = _ := by ring

/-- A mask on the lower of two digits drops the upper one. -/
theorem and_two_digits {low high mask : ℕ} (hlow : low < 2 ^ k)
    (hhigh : high < 2 ^ k) (hmask : mask < 2 ^ k) (n masks : ℕ) :
    (low + 2 ^ k * (high + 2 ^ k * n)) &&& (mask + 2 ^ k * 2 ^ k * masks) =
      (low &&& mask) + 2 ^ k * 2 ^ k * (n &&& masks) := by
  have hsplit : mask + 2 ^ k * 2 ^ k * masks =
      mask + 2 ^ k * (0 + 2 ^ k * masks) := by ring
  rw [hsplit, and_digit_add hmask, and_digit_add (Nat.two_pow_pos k),
    Nat.add_mul_mod_self_left, Nat.mod_eq_of_lt hlow,
    Nat.add_mul_div_left _ _ (Nat.two_pow_pos k), Nat.div_eq_of_lt hlow,
    Nat.zero_add, Nat.add_mul_div_left _ _ (Nat.two_pow_pos k),
    Nat.div_eq_of_lt hhigh, Nat.and_zero, Nat.zero_add, Nat.zero_add]
  ring

/-- One addition and one mask add the neighbours: no digit carries into the
next one, as each is less than half of what fits. -/
theorem add_shiftRight_and_eq_pairSums
    (hdigits : ∀ digit ∈ digits, 2 * digit < 2 ^ k)
    (hmasks : List.Forall₂ (Keeps k) masks (pairSums digits)) :
    (ofDigits (2 ^ k) digits + ofDigits (2 ^ k) digits >>> k) &&&
        ofDigits (2 ^ k * 2 ^ k) masks =
      ofDigits (2 ^ k * 2 ^ k) (pairSums digits) := by
  induction digits using pairSums.induct generalizing masks with
  | case1 => simp [pairSums]
  | case2 digit =>
      have hdigit : digit < 2 ^ k := by
        have hhalf := hdigits digit List.mem_cons_self
        omega
      have hshift : digit >>> k = 0 := by
        rw [Nat.shiftRight_eq_div_pow, Nat.div_eq_of_lt hdigit]
      cases hmasks with
      | cons hkeeps hnone =>
          cases hnone
          rw [pairSums, Nat.ofDigits_singleton, Nat.ofDigits_singleton,
            Nat.ofDigits_singleton, hshift, Nat.add_zero, hkeeps.2]
  | case3 low high digits ih =>
      have hlow := hdigits low List.mem_cons_self
      have hhigh := hdigits high (List.mem_cons_of_mem low List.mem_cons_self)
      have hrest : ∀ digit ∈ digits, 2 * digit < 2 ^ k :=
        fun digit hdigit => hdigits digit
          (List.mem_cons_of_mem low (List.mem_cons_of_mem high hdigit))
      have hnext := two_mul_ofDigits_mod_lt hrest
      cases hmasks with
      | cons hkeeps hmasks =>
          rw [pairSums, Nat.ofDigits_cons, Nat.ofDigits_cons,
            Nat.ofDigits_cons, Nat.ofDigits_cons,
            add_shiftRight_eq (by omega : low < 2 ^ k),
            and_two_digits (by omega) (by omega) hkeeps.1, hkeeps.2,
            ih hrest hmasks]

/-! ## Bits -/

/-- How many of the `count` lowest bits are set. -/
def countBits (count n : ℕ) : ℕ :=
  (List.range count).countP n.testBit

theorem countBits_le (count n : ℕ) : countBits count n ≤ count := by
  calc countBits count n ≤ (List.range count).length := List.countP_le_length
    _ = count := List.length_range

theorem countBits_digit_add {digit : ℕ} (hdigit : digit < 2 ^ k)
    (count rest : ℕ) :
    countBits (k + count) (digit + 2 ^ k * rest) =
      countBits k digit + countBits count rest := by
  have hlow : (List.range k).countP (digit + 2 ^ k * rest).testBit =
      countBits k digit := by
    apply List.countP_congr
    intro index hindex
    rw [Nat.add_comm, Nat.testBit_two_pow_mul_add _ hdigit,
      if_pos (List.mem_range.mp hindex)]
  have hhigh : ((digit + 2 ^ k * rest).testBit ∘ fun index => k + index) =
      rest.testBit := by
    funext index
    rw [Function.comp_apply, Nat.add_comm digit,
      Nat.testBit_two_pow_mul_add _ hdigit, if_neg (by omega),
      Nat.add_sub_cancel_left]
  rw [countBits, List.range_add, List.countP_append, hlow, List.countP_map,
    hhigh]
  rfl

/-- The bits of a number are those of its digits. -/
theorem countBits_ofDigits (hdigits : ∀ digit ∈ digits, digit < 2 ^ k) :
    countBits (digits.length * k) (ofDigits (2 ^ k) digits) =
      (digits.map (countBits k)).sum := by
  induction digits with
  | nil => simp [countBits]
  | cons digit digits ih =>
      have hdigit : digit < 2 ^ k := hdigits digit List.mem_cons_self
      have hrest := ih fun other hother =>
        hdigits other (List.mem_cons_of_mem digit hother)
      rw [List.length_cons, Nat.succ_mul, Nat.add_comm, Nat.ofDigits_cons,
        countBits_digit_add hdigit, hrest, List.map_cons, List.sum_cons]

end Sensor.DigitSums
