import Sensor.Core.DigitSums
import Sensor.Net.Poluter

/-!
# The count of the set bits

`bitcount` counts the bits of every octal digit with two subtractions, adds the
neighbours, and leaves the sum of all digits to the remainder modulo 63.  A
word has ten octal digits of three bits and a highest one of two.
-/

namespace Sensor

open DigitSums ByteOrder
open Nat (ofDigits)

/-- How many bits of a word are set. -/
def setBits (n : BitVec 32) : ℕ :=
  (List.range 32).countP n.getLsbD

/-- How many bits of an address a netmask leaves to the host. -/
def hostBits (netmask : BitVec 32) : ℕ :=
  (List.range 32).countP fun index => !netmask.getLsbD index

/-- The octal digits of a word, the lowest first. -/
def octal (n : BitVec 32) : List ℕ :=
  lowDigits (2 ^ 3) 11 n.toNat

/-- The counts of the bits of the octal digits. -/
def octalCounts (n : BitVec 32) : List ℕ :=
  (octal n).map (countBits 3)

variable (n : BitVec 32)

/-! ## Octal digits -/

theorem ofDigits_octal : ofDigits (2 ^ 3) (octal n) = n.toNat :=
  ofDigits_lowDigits (n.isLt.trans (by decide))

variable {n} in
theorem lt_of_mem_octal {digit : ℕ} (hdigit : digit ∈ octal n) :
    digit < 2 ^ 3 :=
  lt_of_mem_lowDigits (by decide) hdigit

theorem length_octal : (octal n).length = 11 := rfl

theorem sum_octalCounts : (octalCounts n).sum = setBits n := by
  have hbits := countBits_ofDigits fun digit => lt_of_mem_octal (n := n)
  have htop : n.toNat.testBit 32 = false := Nat.testBit_lt_two_pow n.isLt
  rw [length_octal, ofDigits_octal] at hbits
  rw [octalCounts, ← hbits, countBits, List.range_succ, List.countP_append,
    List.countP_singleton, htop]
  rfl

/-! ## The steps -/

theorem countBits_add_shifts {digit : ℕ} (hdigit : digit < 2 ^ 3) :
    countBits 3 digit + (digit >>> 1 + digit >>> 2) = digit := by
  have hall : ∀ digit < 2 ^ 3,
      countBits 3 digit + (digit >>> 1 + digit >>> 2) = digit := by
    decide
  exact hall digit hdigit

/-- What one shift and its mask leave of a word. -/
theorem toNat_shift_and {shift : ℕ} {mask : BitVec 32} (hshift : shift ≤ 3)
    (hmask : mask.toNat =
      ofDigits (2 ^ 3) (List.replicate 11 (2 ^ (3 - shift) - 1))) :
    (n >>> shift &&& mask).toNat =
      ofDigits (2 ^ 3) ((octal n).map (· >>> shift)) := by
  rw [BitVec.toNat_and, BitVec.toNat_ushiftRight, hmask, ← ofDigits_octal n,
    ← length_octal n]
  exact shiftRight_and_replicate hshift fun digit => lt_of_mem_octal

/-- What is left when two parts of a word are taken away. -/
theorem toNat_sub_sub {first second : BitVec 32} {count : ℕ}
    (hsum : count + (first.toNat + second.toNat) = n.toNat) :
    (n - first - second).toNat = count := by
  have hfirst : (n - first).toNat = n.toNat - first.toNat := by
    apply BitVec.toNat_sub_of_le
    rw [BitVec.le_def]
    omega
  have hsecond : (n - first - second).toNat =
      (n - first).toNat - second.toNat := by
    apply BitVec.toNat_sub_of_le
    rw [BitVec.le_def, hfirst]
    omega
  rw [hsecond, hfirst]
  omega

/-- The subtractions borrow from no other digit. -/
theorem toNat_count :
    (n - (n >>> 1 &&& 0o33333333333) - (n >>> 2 &&& 0o11111111111)).toNat =
      ofDigits (2 ^ 3) (octalCounts n) := by
  have hsplit : (octal n).map (fun digit =>
      countBits 3 digit + (digit >>> 1 + digit >>> 2)) = octal n := by
    conv_rhs => rw [← List.map_id (octal n)]
    exact List.map_congr_left fun digit hdigit =>
      countBits_add_shifts (lt_of_mem_octal hdigit)
  apply toNat_sub_sub
  rw [toNat_shift_and n (by decide : 1 ≤ 3) (by decide),
    toNat_shift_and n (by decide : 2 ≤ 3) (by decide), octalCounts,
    ← ofDigits_map_add, ← ofDigits_map_add, hsplit, ofDigits_octal]

/-- The sum of two digits fits a digit again. -/
theorem keeps_pair (low high : ℕ) :
    Keeps 3 7 (countBits 3 low + countBits 3 high) := by
  have hlow := countBits_le 3 low
  have hhigh := countBits_le 3 high
  exact ⟨by decide, Nat.and_two_pow_sub_one_of_lt_two_pow (n := 3) (by omega)⟩

/-- The highest digit of a word has two bits. -/
theorem keeps_top {digit : ℕ} (hdigit : digit < 4) :
    Keeps 3 3 (countBits 3 digit) := by
  have hall : ∀ digit < 4,
      3 < 2 ^ 3 ∧ countBits 3 digit &&& 3 = countBits 3 digit := by
    decide
  exact hall digit hdigit

theorem keeps_pairSums_octalCounts :
    List.Forall₂ (Keeps 3) [7, 7, 7, 7, 7, 3] (pairSums (octalCounts n)) := by
  have hlt := n.isLt
  simp only [octalCounts, octal, lowDigits, List.map_cons, List.map_nil,
    pairSums]
  iterate 5 apply List.Forall₂.cons (keeps_pair _ _)
  exact List.Forall₂.cons (keeps_top (by omega)) List.Forall₂.nil

theorem two_mul_lt_of_mem_octalCounts {count : ℕ}
    (hcount : count ∈ octalCounts n) : 2 * count < 2 ^ 3 := by
  have hle : count ≤ 3 := by
    obtain ⟨digit, -, rfl⟩ := List.mem_map.mp hcount
    exact countBits_le 3 digit
  omega

/-- The addition may pass the end of the word; the mask has no bit there. -/
theorem toNat_add_and (count mask : BitVec 32) :
    (count + count >>> 3 &&& mask).toNat =
      (count.toNat + count.toNat >>> 3) &&& mask.toNat := by
  have hlt : (count.toNat + count.toNat >>> 3) &&& mask.toNat < 2 ^ 32 :=
    Nat.and_lt_two_pow _ mask.isLt
  rw [BitVec.toNat_and, BitVec.toNat_add, BitVec.toNat_ushiftRight,
    ← Nat.mod_eq_of_lt hlt, Nat.and_mod_two_pow,
    Nat.mod_eq_of_lt mask.isLt]

/-! ## The count -/

theorem bitcount_eq_setBits : bitcount n = setBits n := by
  have hcount := toNat_count n
  have hmask : (0o30707070707 : BitVec 32).toNat =
      ofDigits (2 ^ 3 * 2 ^ 3) [7, 7, 7, 7, 7, 3] := by
    decide
  have hle : setBits n ≤ 32 := by
    calc setBits n ≤ (List.range 32).length := List.countP_le_length
      _ = 32 := List.length_range
  rw [bitcount]
  rw [BitVec.toNat_umod, toNat_add_and, hcount, hmask,
    add_shiftRight_and_eq_pairSums
      (fun count => two_mul_lt_of_mem_octalCounts n)
      (keeps_pairSums_octalCounts n)]
  have hmod : ofDigits (2 ^ 3 * 2 ^ 3) (pairSums (octalCounts n)) % 63 =
      setBits n := by
    calc _ = (pairSums (octalCounts n)).sum % 63 :=
          ofDigits_mod_eq_sum_mod 63 _
      _ = setBits n % 63 := by rw [sum_pairSums, sum_octalCounts]
      _ = setBits n := Nat.mod_eq_of_lt (by omega)
  exact congrArg Nat.cast hmod

theorem setBits_add_hostBits : setBits n + hostBits n = 32 := by
  have hlength := List.length_eq_countP_add_countP n.getLsbD
    (l := List.range 32)
  rw [List.length_range] at hlength
  simpa [setBits, hostBits] using hlength.symm

theorem sub_bitcount_eq_hostBits : 32 - bitcount n = hostBits n := by
  have hsum := setBits_add_hostBits n
  rw [bitcount_eq_setBits]
  omega

theorem hostBits_netmask {length : ℕ} (hlength : length ≤ 32) :
    hostBits (swap32 (Subnet.netmask length)) = 32 - length := by
  have hcount := sub_bitcount_eq_hostBits (swap32 (Subnet.netmask length))
  rw [Poluter.bitcount_netmask hlength] at hcount
  omega

/-- `bitcount` is the number of the set bits of every word, and what the survey
makes of it the number of host bits of every contiguous netmask. -/
theorem bitcount_counts_set_bits :
    (∀ n, bitcount n = setBits n) ∧
      (∀ netmask, 32 - bitcount netmask = hostBits netmask) ∧
      ∀ length ≤ 32,
        hostBits (swap32 (Subnet.netmask length)) = 32 - length := by
  constructor
  · exact bitcount_eq_setBits
  · constructor
    · exact sub_bitcount_eq_hostBits
    · intro length hlength
      exact hostBits_netmask hlength

theorem bitcount_counts_set_bits_of_subnet :
    bitcount 0xfefeffff = setBits 0xfefeffff ∧
      32 - bitcount (swap32 (Subnet.netmask 24)) = 8 := by
  have hhost := bitcount_counts_set_bits.2.2 24 (by decide)
  constructor
  · exact bitcount_counts_set_bits.1 0xfefeffff
  · rw [bitcount_counts_set_bits.2.1, hhost]
    rfl

end Sensor
