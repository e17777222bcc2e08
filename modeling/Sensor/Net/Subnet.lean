import Mathlib.Data.List.Sort
import Mathlib.Data.BitVec

/-!
# Subnets

The hosts of an IPv4 subnet.  Addresses are in host order, so that their order
is the order of the numbers.
-/

namespace Sensor.Subnet

/-- The netmask of a prefix of `length` bits. -/
def netmask (length : ℕ) : BitVec 32 :=
  BitVec.allOnes 32 <<< (32 - length)

def networkAddress (ip : BitVec 32) (length : ℕ) : BitVec 32 :=
  ip &&& netmask length

def broadcastAddress (ip : BitVec 32) (length : ℕ) : BitVec 32 :=
  ip ||| ~~~ netmask length

/-- An address of the subnet of `ip` other than the network address, the
broadcast address and `ip`. -/
structure IsHost (ip : BitVec 32) (length : ℕ) (address : BitVec 32) :
    Prop where
  inside : networkAddress address length = networkAddress ip length
  not_network : address ≠ networkAddress ip length
  not_broadcast : address ≠ broadcastAddress ip length
  not_self : address ≠ ip

instance (ip : BitVec 32) (length : ℕ) (address : BitVec 32) :
    Decidable (IsHost ip length address) :=
  decidable_of_iff
    (networkAddress address length = networkAddress ip length ∧
      address ≠ networkAddress ip length ∧
      address ≠ broadcastAddress ip length ∧ address ≠ ip)
    ⟨fun ⟨inside, not_network, not_broadcast, not_self⟩ =>
      ⟨inside, not_network, not_broadcast, not_self⟩,
      fun ⟨inside, not_network, not_broadcast, not_self⟩ =>
      ⟨inside, not_network, not_broadcast, not_self⟩⟩

/-- The hosts of a subnet, each once and in ascending order. -/
def hosts (ip : BitVec 32) (length : ℕ) : List (BitVec 32) :=
  ((List.range (2 ^ 32)).map (BitVec.ofNat 32)).filter fun address =>
    IsHost ip length address

section Arithmetic

variable {ip address : BitVec 32} {length : ℕ}

theorem toNat_networkAddress :
    (networkAddress ip length).toNat =
      ip.toNat / 2 ^ (32 - length) * 2 ^ (32 - length) := by
  have hlt : ip.toNat / 2 ^ (32 - length) * 2 ^ (32 - length) < 2 ^ 32 :=
    (Nat.div_mul_le_self _ _).trans_lt ip.isLt
  rw [networkAddress, netmask, ← BitVec.shiftLeft_ushiftRight,
    BitVec.toNat_shiftLeft, BitVec.toNat_ushiftRight, Nat.shiftRight_eq_div_pow,
    Nat.shiftLeft_eq, Nat.mod_eq_of_lt hlt]

/-- A subnet ends inside the address space. -/
theorem toNat_networkAddress_add_le :
    (networkAddress ip length).toNat + 2 ^ (32 - length) ≤ 2 ^ 32 := by
  have hpower : 2 ^ 32 = 2 ^ (32 - (32 - length)) * 2 ^ (32 - length) := by
    rw [← Nat.pow_add]
    congr 1
    omega
  have hquotient : ip.toNat / 2 ^ (32 - length) < 2 ^ (32 - (32 - length)) := by
    rw [Nat.div_lt_iff_lt_mul (Nat.two_pow_pos _), ← hpower]
    exact ip.isLt
  calc (networkAddress ip length).toNat + 2 ^ (32 - length)
      = (ip.toNat / 2 ^ (32 - length) + 1) * 2 ^ (32 - length) := by
        rw [toNat_networkAddress, Nat.add_mul, Nat.one_mul]
    _ ≤ 2 ^ (32 - (32 - length)) * 2 ^ (32 - length) :=
        Nat.mul_le_mul_right _ hquotient
    _ = 2 ^ 32 := hpower.symm

theorem toNat_not_netmask :
    (~~~ netmask length).toNat = 2 ^ (32 - length) - 1 := by
  have hself : netmask length = networkAddress (BitVec.allOnes 32) length := by
    rw [networkAddress, BitVec.allOnes_and]
  have hle : (netmask length).toNat + 2 ^ (32 - length) ≤ 2 ^ 32 := by
    rw [hself]
    exact toNat_networkAddress_add_le
  have hdivides : 2 ^ 32 - 1 <
      (2 ^ 32 - 1) / 2 ^ (32 - length) * 2 ^ (32 - length) +
        2 ^ (32 - length) := Nat.lt_div_mul_add (Nat.two_pow_pos _)
  have hvalue : (netmask length).toNat =
      (2 ^ 32 - 1) / 2 ^ (32 - length) * 2 ^ (32 - length) := by
    rw [hself, toNat_networkAddress, BitVec.toNat_allOnes]
  rw [BitVec.toNat_not]
  omega

/-- The network address and the numbers of the hosts do not overlap. -/
theorem toNat_broadcastAddress :
    (broadcastAddress ip length).toNat =
      (networkAddress ip length).toNat + (2 ^ (32 - length) - 1) := by
  have hsplit : broadcastAddress ip length =
      networkAddress ip length ||| ~~~ netmask length := by
    simp only [broadcastAddress, networkAddress]
    ext index
    grind
  have hdisjoint : networkAddress ip length &&& ~~~ netmask length = 0 := by
    simp only [networkAddress]
    ext index
    grind
  have hsum := BitVec.add_eq_or_of_and_eq_zero _ _ hdisjoint
  have hle : (networkAddress ip length).toNat + 2 ^ (32 - length) ≤ 2 ^ 32 :=
    toNat_networkAddress_add_le
  have hpos := Nat.two_pow_pos (32 - length)
  rw [hsplit, ← hsum, BitVec.toNat_add, toNat_not_netmask,
    Nat.mod_eq_of_lt (by omega)]

/-- The addresses of a subnet follow its network address. -/
theorem networkAddress_eq_iff :
    networkAddress address length = networkAddress ip length ↔
      (networkAddress ip length).toNat ≤ address.toNat ∧
        address.toNat < (networkAddress ip length).toNat + 2 ^ (32 - length) := by
  have hpos := Nat.two_pow_pos (32 - length)
  rw [← BitVec.toNat_inj, toNat_networkAddress, toNat_networkAddress,
    Nat.mul_left_inj hpos.ne', Nat.div_eq_iff hpos]
  omega

/-- The hosts are the numbers between the network address and the broadcast
address. -/
theorem isHost_iff :
    IsHost ip length address ↔
      (networkAddress ip length).toNat < address.toNat ∧
        address.toNat + 1 <
          (networkAddress ip length).toNat + 2 ^ (32 - length) ∧
        address ≠ ip := by
  have hpos := Nat.two_pow_pos (32 - length)
  have hnetwork : address = networkAddress ip length ↔
      address.toNat = (networkAddress ip length).toNat := BitVec.toNat_inj.symm
  have hbroadcast : address = broadcastAddress ip length ↔ address.toNat =
      (networkAddress ip length).toNat + (2 ^ (32 - length) - 1) := by
    rw [← BitVec.toNat_inj, toNat_broadcastAddress]
  constructor
  · intro hhost
    have hinside := networkAddress_eq_iff.mp hhost.inside
    have hfirst := hhost.not_network
    have hlast := hhost.not_broadcast
    rw [Ne, hnetwork] at hfirst
    rw [Ne, hbroadcast] at hlast
    exact ⟨by omega, by omega, hhost.not_self⟩
  · rintro ⟨hfirst, hlast, hself⟩
    refine ⟨networkAddress_eq_iff.mpr (by omega), ?_, ?_, hself⟩
    · rw [Ne, hnetwork]
      omega
    · rw [Ne, hbroadcast]
      omega

end Arithmetic

section Hosts

variable {ip : BitVec 32} {length : ℕ}

/-- Numbers below `2 ^ 32` in ascending order stay so as addresses. -/
theorem pairwise_map_ofNat {count : ℕ} {number : ℕ → ℕ}
    (hmono : StrictMono number)
    (hbound : ∀ index, index < count → number index < 2 ^ 32) :
    ((List.range count).map fun index =>
      BitVec.ofNat 32 (number index)).Pairwise (· < ·) := by
  rw [List.pairwise_map]
  refine List.pairwise_lt_range.imp_of_mem ?_
  intro first second hfirst hsecond hlt
  have hfirst' := hbound first (List.mem_range.mp hfirst)
  have hsecond' := hbound second (List.mem_range.mp hsecond)
  rw [BitVec.lt_def, BitVec.toNat_ofNat, BitVec.toNat_ofNat,
    Nat.mod_eq_of_lt hfirst', Nat.mod_eq_of_lt hsecond']
  exact hmono hlt

/-- Ascending lists with the same members are equal. -/
theorem eq_of_pairwise_lt {left right : List (BitVec 32)}
    (hleft : left.Pairwise (· < ·)) (hright : right.Pairwise (· < ·))
    (hmem : ∀ address, address ∈ left ↔ address ∈ right) : left = right := by
  have hirrefl : ∀ first second : BitVec 32, first < second →
      first ≠ second := by
    intro first second hlt heq
    rw [heq, BitVec.lt_def] at hlt
    exact Nat.lt_irrefl _ hlt
  have hperm : left.Perm right :=
    (List.perm_ext_iff_of_nodup (hleft.imp (hirrefl _ _))
      (hright.imp (hirrefl _ _))).mpr hmem
  refine hperm.eq_of_pairwise ?_ hleft hright
  intro first second _ _ hlt hgt
  rw [BitVec.lt_def] at hlt hgt
  omega

theorem mem_hosts {address : BitVec 32} :
    address ∈ hosts ip length ↔ IsHost ip length address := by
  rw [hosts, List.mem_filter, decide_eq_true_eq, and_iff_right_iff_imp]
  intro _
  exact List.mem_map.mpr
    ⟨address.toNat, List.mem_range.mpr address.isLt, by
      rw [BitVec.ofNat_toNat, BitVec.setWidth_eq]⟩

theorem hosts_pairwise : (hosts ip length).Pairwise (· < ·) := by
  refine List.Pairwise.filter _ (pairwise_map_ofNat strictMono_id ?_)
  intro number hnumber
  exact hnumber

/-- Where the addresses of a subnet are counted from its network address, the
hosts are the ones from 1 to two before the size of the subnet, without `ip`. -/
theorem hosts_eq :
    hosts ip length =
      ((List.range (2 ^ (32 - length) - 2)).map fun index =>
        BitVec.ofNat 32 ((networkAddress ip length).toNat + index + 1)).filter
          fun address => address ≠ ip := by
  have hle : (networkAddress ip length).toNat + 2 ^ (32 - length) ≤ 2 ^ 32 :=
    toNat_networkAddress_add_le
  refine eq_of_pairwise_lt hosts_pairwise
    (List.Pairwise.filter _ (pairwise_map_ofNat ?_ ?_)) ?_
  · intro first second hlt
    exact Nat.add_lt_add_right (Nat.add_lt_add_left hlt _) 1
  · intro index hindex
    omega
  intro address
  rw [mem_hosts, isHost_iff, List.mem_filter, List.mem_map]
  constructor
  · rintro ⟨hfirst, hlast, hself⟩
    refine ⟨⟨address.toNat - (networkAddress ip length).toNat - 1,
      List.mem_range.mpr (by omega), ?_⟩, decide_eq_true hself⟩
    have hnumber : (networkAddress ip length).toNat +
        (address.toNat - (networkAddress ip length).toNat - 1) + 1 =
          address.toNat := by omega
    rw [hnumber, BitVec.ofNat_toNat, BitVec.setWidth_eq]
  · rintro ⟨⟨index, hindex, rfl⟩, hself⟩
    have hlt := List.mem_range.mp hindex
    rw [BitVec.toNat_ofNat, Nat.mod_eq_of_lt (by omega)]
    exact ⟨by omega, by omega, of_decide_eq_true hself⟩

/-- A subnet of one or two addresses has no hosts. -/
theorem hosts_eq_nil (hlength : 31 ≤ length) : hosts ip length = [] := by
  have hsmall : 2 ^ (32 - length) ≤ 2 ^ 1 :=
    Nat.pow_le_pow_right (by omega) (by omega)
  have hnone : 2 ^ (32 - length) - 2 = 0 := by omega
  rw [hosts_eq, hnone]
  rfl

end Hosts

end Sensor.Subnet
