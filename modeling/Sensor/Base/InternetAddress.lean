import Sensor.Core.ByteOrder

/-!
# Internet addresses

An address of either family, the ways to build and change one, and its equality
and hash.  The equality takes what `memcmp` returns for the answer, and the hash
is one over all bytes of the object.
-/

namespace Sensor

open ByteOrder Region

/-- The families an `InternetAddress` can have. -/
inductive Family where
  | unspec
  | inet
  | inet6
  deriving DecidableEq

namespace Family

/-- The number of a family, a `sa_family_t`. -/
def number : Family → BitVec 16
  | .unspec => 0
  | .inet => 2
  | .inet6 => 10

end Family

/-- The object: the family, the two bytes behind it that no member uses, and the
union of the two kinds of address. -/
structure InternetAddress where
  family : Family
  padding : BitVec 16
  address : Vector Byte 16
  deriving DecidableEq

namespace InternetAddress

/-- `memcmp` of two regions of one length. -/
def memcmp : List Byte → List Byte → ℤ
  | left :: lefts, right :: rights =>
      if left = right then memcmp lefts rights
      else (left.toNat : ℤ) - right.toNat
  | _, _ => 0

/-- `times33` over a region; `char` is signed. -/
def times33 (data : List Byte) : BitVec 64 :=
  data.foldl (fun hash byte => 33 * hash + byte.signExtend 64) 0

section Members

variable (ip4 : Vector Byte 4) (ip6 : Vector Byte 16)

/-- Storing an IPv4 address leaves the rest of the union alone. -/
def withIp4 (address : Vector Byte 16) : Vector Byte 16 :=
  (ip4 ++ address.drop 4 : Vector Byte (4 + (16 - 4)))

/-- `InternetAddress()`, with whatever the unused bytes hold. -/
def ofNothing (padding : BitVec 16) : InternetAddress where
  family := .unspec
  padding := padding
  address := Vector.replicate 16 0

/-- `InternetAddress(struct in_addr)`. -/
def ofInAddr (padding : BitVec 16) : InternetAddress where
  family := .inet
  padding := padding
  address := withIp4 ip4 (Vector.replicate 16 0)

/-- `InternetAddress(struct in6_addr)`. -/
def ofIn6Addr (padding : BitVec 16) : InternetAddress where
  family := .inet6
  padding := padding
  address := ip6

/-- `InternetAddress(struct sockaddr *, size_t)`, which writes into an object of
which nothing is initialised. -/
def ofSockaddr (object : InternetAddress) (addr : ℕ → Byte) (len : ℕ) :
    InternetAddress :=
  if load16 addr 0 = Family.inet.number ∧ 16 ≤ len then
    { object with
      family := .inet
      address := withIp4 (Vector.ofFn fun index => addr (4 + index))
        object.address }
  else if load16 addr 0 = Family.inet6.number ∧ 28 ≤ len then
    { object with
      family := .inet6
      address := Vector.ofFn fun index => addr (8 + index) }
  else { object with family := .unspec }

def setAddr4 (object : InternetAddress) : InternetAddress :=
  { object with family := .inet, address := withIp4 ip4 object.address }

def setAddr6 (object : InternetAddress) : InternetAddress :=
  { object with family := .inet6, address := ip6 }

/-- `operator=`, which copies the members and not the bytes between them. -/
def assign (object other : InternetAddress) : InternetAddress :=
  { object with family := other.family, address := other.address }

end Members

variable {left right : InternetAddress}

/-- The bytes of the object. -/
def raw (object : InternetAddress) : List Byte :=
  bytes16 object.family.number ++ bytes16 object.padding ++
    object.address.toList

/-- `std::hash<InternetAddress>`. -/
def hash (object : InternetAddress) : BitVec 64 :=
  times33 object.raw

/-- `operator==`. -/
def operatorEq (left right : InternetAddress) : Bool :=
  if left.family = right.family then
    if left.family = .inet then
      memcmp (left.address.toList.take 4) (right.address.toList.take 4) != 0
    else memcmp left.address.toList right.address.toList != 0
  else false

/-! ## What the equality compares -/

/-- The bytes `operator==` compares. -/
def compared (object : InternetAddress) : List Byte :=
  if object.family = .inet then object.address.toList.take 4
  else object.address.toList

/-- The bytes of the address an object holds. -/
def addressBytes (object : InternetAddress) : List Byte :=
  match object.family with
  | .unspec => []
  | .inet => object.address.toList.take 4
  | .inet6 => object.address.toList

/-- Two objects hold the same address. -/
def Same (left right : InternetAddress) : Prop :=
  left.family = right.family ∧ left.addressBytes = right.addressBytes

instance : DecidableRel Same := fun left right =>
  inferInstanceAs (Decidable
    (left.family = right.family ∧ left.addressBytes = right.addressBytes))

theorem memcmp_eq_zero_iff {left right : List Byte}
    (hlength : left.length = right.length) :
    memcmp left right = 0 ↔ left = right := by
  induction left generalizing right with
  | nil =>
      rw [List.eq_nil_of_length_eq_zero hlength.symm]
      exact ⟨fun _ => rfl, fun _ => rfl⟩
  | cons byte left ih =>
      obtain ⟨other, right, rfl⟩ := List.exists_cons_of_length_eq_add_one
        hlength.symm
      have hrest : left.length = right.length := by simpa using hlength
      rw [memcmp, List.cons.injEq]
      by_cases hbyte : byte = other
      · rw [if_pos hbyte, ih hrest, and_iff_right hbyte]
      · have hnumber : byte.toNat ≠ other.toNat := by
          rwa [Ne, BitVec.toNat_inj]
        rw [if_neg hbyte]
        constructor
        · intro hzero
          omega
        · rintro ⟨hsame, -⟩
          exact absurd hsame hbyte

/-- The equality accepts two addresses of one family when their bytes differ. -/
theorem operatorEq_iff :
    operatorEq left right = true ↔
      left.family = right.family ∧ left.compared ≠ right.compared := by
  rw [operatorEq, compared, compared]
  by_cases hfamily : left.family = right.family
  · rw [if_pos hfamily, hfamily, and_iff_right rfl]
    by_cases hinet : right.family = .inet
    · simp only [if_pos hinet, bne_iff_ne, ne_eq]
      rw [memcmp_eq_zero_iff (by simp)]
    · simp only [if_neg hinet, bne_iff_ne, ne_eq]
      rw [memcmp_eq_zero_iff (by simp)]
  · simp [hfamily]

/-- No address with address bytes equals itself or one that is the same. -/
theorem not_operatorEq_of_same (hsame : Same left right)
    (hfamily : left.family ≠ .unspec) : operatorEq left right = false := by
  obtain ⟨hfamilies, hbytes⟩ := hsame
  rw [← Bool.not_eq_true, operatorEq_iff]
  rintro ⟨-, hdiffer⟩
  apply hdiffer
  rw [addressBytes, addressBytes, ← hfamilies] at hbytes
  rw [compared, compared, ← hfamilies]
  cases hcase : left.family with
  | unspec => exact absurd hcase hfamily
  | inet => simpa [hcase] using hbytes
  | inet6 => simpa [hcase] using hbytes

end InternetAddress

end Sensor
