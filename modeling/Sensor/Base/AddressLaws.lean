import Mathlib
import Sensor.Base.InternetAddress

/-!
# The laws of equality and hash of addresses

A container needs an equality that holds for equal addresses and a hash that
agrees with it.  `operator==` is the negation of the first on addresses of one
family, so that both hold only where it happens to compare the unused bytes of
two addresses without a family.
-/

namespace Sensor.InternetAddress

open ByteOrder Region

/-! ## The addresses a program can have -/

/-- An object after its construction and any number of assignments. -/
inductive Obtained : InternetAddress → Prop
  | ofNothing (padding : BitVec 16) : Obtained (ofNothing padding)
  | ofInAddr (ip4 : Vector Byte 4) (padding : BitVec 16) :
      Obtained (ofInAddr ip4 padding)
  | ofIn6Addr (ip6 : Vector Byte 16) (padding : BitVec 16) :
      Obtained (ofIn6Addr ip6 padding)
  | ofSockaddr (object : InternetAddress) (addr : ℕ → Byte) (len : ℕ) :
      Obtained (ofSockaddr object addr len)
  | setAddr4 {object : InternetAddress} (ip4 : Vector Byte 4)
      (hobject : Obtained object) : Obtained (setAddr4 ip4 object)
  | setAddr6 {object : InternetAddress} (ip6 : Vector Byte 16)
      (hobject : Obtained object) : Obtained (setAddr6 ip6 object)
  | assign {object other : InternetAddress} (hobject : Obtained object)
      (hother : Obtained other) : Obtained (assign object other)

/-- The bytes of an IPv4 address stored over themselves. -/
theorem withIp4_self (address : Vector Byte 16) :
    withIp4 (Vector.ofFn fun index => address[index.val]) address =
      address := by
  apply Vector.ext
  intro index hindex
  have hindex' : index < 4 + (16 - 4) := hindex
  refine (Vector.getElem_append hindex').trans ?_
  split
  · rw [Vector.getElem_ofFn]
  · rw [Vector.getElem_drop]
    congr 1
    omega

/-- An object can hold any bytes: the constructor for a `sockaddr` leaves those
of another family as they are. -/
theorem obtained (object : InternetAddress) : Obtained object := by
  have hbytes : Obtained { object with family := .unspec } := by
    have hother : Obtained (.ofSockaddr object (fun _ => 0) 0) :=
      .ofSockaddr object (fun _ => 0) 0
    have hplain : ofSockaddr object (fun _ => 0) 0 =
        { object with family := .unspec } := by
      rw [InternetAddress.ofSockaddr, if_neg (by simp), if_neg (by simp)]
    rwa [hplain] at hother
  obtain ⟨family, padding, address⟩ := object
  cases family with
  | unspec => exact hbytes
  | inet =>
      have hset := hbytes.setAddr4
        (Vector.ofFn fun index => address[index.val])
      rwa [InternetAddress.setAddr4, withIp4_self] at hset
  | inet6 => exact hbytes.setAddr6 address

/-! ## The hash as a number -/

/-- The signed bytes of a region, weighted with powers of 33. -/
def weight : List Byte → ℤ
  | [] => 0
  | byte :: bytes => byte.toInt * 33 ^ bytes.length + weight bytes

theorem foldl_times33 (data : List Byte) (number : ℤ) :
    data.foldl (fun hash byte => 33 * hash + byte.signExtend 64)
        (BitVec.ofInt 64 number) =
      BitVec.ofInt 64 (number * 33 ^ data.length + weight data) := by
  induction data generalizing number with
  | nil => simp [weight]
  | cons byte data ih =>
      have hstep : 33 * BitVec.ofInt 64 number + byte.signExtend 64 =
          BitVec.ofInt 64 (33 * number + byte.toInt) := by
        rw [BitVec.ofInt_add, BitVec.ofInt_mul]
        rfl
      rw [List.foldl_cons, hstep, ih, weight, List.length_cons]
      congr 1
      ring

/-- Two regions have the same hash exactly if their weights agree modulo
`2 ^ 64`. -/
theorem times33_eq_iff (left right : List Byte) :
    times33 left = times33 right ↔
      weight left ≡ weight right [ZMOD 2 ^ 64] := by
  have hweight : ∀ data : List Byte,
      times33 data = BitVec.ofInt 64 (weight data) := by
    intro data
    have hfold := foldl_times33 data 0
    rwa [zero_mul, zero_add] at hfold
  rw [hweight, hweight, Int.ModEq]
  constructor
  · intro hsame
    have hnat := congrArg BitVec.toNat hsame
    simp only [BitVec.toNat_ofInt] at hnat
    omega
  · intro hsame
    apply BitVec.eq_of_toNat_eq
    simp only [BitVec.toNat_ofInt]
    omega

/-! ## The laws -/

/-- Two addresses are equal exactly if they are the same, and then they have one
hash. -/
structure Lawful (left right : InternetAddress) : Prop where
  eq_iff : operatorEq left right = true ↔ Same left right
  hash_eq : operatorEq left right = true → left.hash = right.hash

variable {left right : InternetAddress}

/-- No address equals itself. -/
theorem operatorEq_self (object : InternetAddress) :
    operatorEq object object = false := by
  rw [← Bool.not_eq_true, operatorEq_iff]
  exact fun hequal => hequal.2 rfl

/-- Two addresses without a family are the same, and equal if their bytes
differ. -/
theorem lawful_unspec_iff (hleft : left.family = .unspec)
    (hright : right.family = .unspec) :
    Lawful left right ↔ left.address ≠ right.address ∧
      weight left.raw ≡ weight right.raw [ZMOD 2 ^ 64] := by
  have hsame : Same left right := by
    simp [Same, addressBytes, hleft, hright]
  have hequal : operatorEq left right = true ↔
      left.address ≠ right.address := by
    rw [operatorEq_iff, hleft, hright, and_iff_right rfl, compared, compared,
      hleft, hright, if_neg (by decide), if_neg (by decide), ne_eq, ne_eq,
      Vector.toList_inj]
  have hhash : left.hash = right.hash ↔
      weight left.raw ≡ weight right.raw [ZMOD 2 ^ 64] :=
    times33_eq_iff left.raw right.raw
  rw [← hequal, ← hhash]
  constructor
  · intro hlawful
    have htrue := hlawful.eq_iff.mpr hsame
    exact ⟨htrue, hlawful.hash_eq htrue⟩
  · intro hboth
    exact ⟨iff_of_true hboth.1 hsame, fun _ => hboth.2⟩

/-- Addresses of different families are neither the same nor equal. -/
theorem lawful_of_family_ne (hfamily : left.family ≠ right.family) :
    Lawful left right := by
  have hfalse : operatorEq left right = false := by
    rw [← Bool.not_eq_true, operatorEq_iff]
    exact fun hequal => hfamily hequal.1
  constructor
  · rw [hfalse]
    exact iff_of_false Bool.false_ne_true fun hsame => hfamily hsame.1
  · rw [hfalse]
    exact fun htrue => absurd htrue Bool.false_ne_true

/-- Two addresses of one family are equal exactly if they are not the same. -/
theorem not_lawful_of_family (hfamily : left.family = right.family)
    (hunspec : left.family ≠ .unspec) : ¬ Lawful left right := by
  have hbytes : left.addressBytes = left.compared ∧
      right.addressBytes = right.compared := by
    rw [addressBytes, addressBytes, compared, compared, ← hfamily]
    cases hcase : left.family with
    | unspec => exact absurd hcase hunspec
    | inet => exact ⟨rfl, rfl⟩
    | inet6 => exact ⟨rfl, rfl⟩
  intro hlawful
  have hiff := hlawful.eq_iff
  rw [operatorEq_iff, Same, and_iff_right hfamily, and_iff_right hfamily,
    hbytes.1, hbytes.2] at hiff
  exact iff_not_self hiff.symm

/-- The laws hold for two addresses exactly if they are of different families,
or have none, differ in their unused bytes and collide in the hash. -/
theorem lawful_iff (left right : InternetAddress) :
    Lawful left right ↔ left.family ≠ right.family ∨
      (left.family = .unspec ∧ right.family = .unspec ∧
        left.address ≠ right.address ∧
        weight left.raw ≡ weight right.raw [ZMOD 2 ^ 64]) := by
  by_cases hfamily : left.family = right.family
  · by_cases hunspec : left.family = .unspec
    · rw [lawful_unspec_iff hunspec (hfamily ▸ hunspec)]
      simp [hunspec, ← hfamily]
    · apply iff_of_false (not_lawful_of_family hfamily hunspec)
      rintro (hdiffer | hboth)
      · exact hdiffer hfamily
      · exact hunspec hboth.1
  · exact iff_of_true (lawful_of_family_ne hfamily) (.inl hfamily)

/-- The address 10.0.0.1 does not equal itself. -/
theorem not_lawful :
    ¬ ∀ left right, Obtained left → Obtained right → Lawful left right := by
  intro hlawful
  have hone := hlawful _ _ (.ofInAddr #v[10, 0, 0, 1] 0)
    (.ofInAddr #v[10, 0, 0, 1] 0)
  have hself := operatorEq_self (.ofInAddr #v[10, 0, 0, 1] 0)
  rw [hone.eq_iff.mpr ⟨rfl, rfl⟩] at hself
  cases hself

end Sensor.InternetAddress
