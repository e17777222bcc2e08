import Mathlib
import Sensor.Frontend.Kvset

/-!
# The address of an interface

`get_interface_inet_address_str` goes through the list `getifaddrs` made and
converts the address of one entry with `getnameinfo`.  The C library's
conversion is a parameter.
-/

namespace Sensor.InterfaceAddress

open ByteOrder

/-- A C string: the bytes before its NUL. -/
structure CString where
  bytes : List Byte
  noNul : 0 ∉ bytes

/-- `strncmp`: the difference of the first bytes that differ. -/
def strncmp : List Byte → List Byte → ℕ → ℤ
  | _, _, 0 => 0
  | [], [], _ + 1 => 0
  | [], byte :: _, _ + 1 => -byte.toNat
  | byte :: _, [], _ + 1 => byte.toNat
  | byte :: left, byte' :: right, count + 1 =>
      if byte = byte' then strncmp left right count
      else (byte.toNat : ℤ) - byte'.toNat

/-- The families the caller may ask for. -/
inductive Family where
  | inet
  | inet6
  deriving DecidableEq

/-- `AF_INET` and `AF_INET6`. -/
def Family.code : Family → BitVec 16
  | inet => 2
  | inet6 => 10

/-- The size of a socket address of the family. -/
def Family.addrsz : Family → ℕ
  | inet => 16
  | inet6 => 28

structure Sockaddr where
  saFamily : BitVec 16
  saData : List Byte

def ifNamesize : ℕ := 16

/-- An entry of the list; the names of interfaces fit into `IF_NAMESIZE` bytes
with their NUL. -/
structure Ifaddrs where
  ifaName : CString
  ifaAddr : Option Sockaddr
  short : ifaName.bytes.length < ifNamesize

/-- `getnameinfo` with `NI_NUMERICHOST`, on an address and its size and on a
buffer of a size: the return code and what the buffer holds then. -/
abbrev Getnameinfo :=
  Sockaddr → ℕ → List Byte → ℕ → ℤ × List Byte

section

variable (getnameinfo : Getnameinfo) (family : Family)
  (interfaceName : CString) (address : List Byte) (len : ℕ)

/-- The loop over the entries: the result and what `address` holds. -/
def search : List Ifaddrs → Bool × List Byte
  | [] => (false, address)
  | ifa :: ifas =>
      match ifa.ifaAddr with
      | none => search ifas
      | some addr =>
          if strncmp ifa.ifaName.bytes interfaceName.bytes ifNamesize ≠ 0 ∧
              addr.saFamily = family.code then
            let (rc, address) := getnameinfo addr family.addrsz address len
            (rc == 0, address)
          else search ifas

/-- `get_interface_inet_address_str`; `ifas` is missing if `getifaddrs` fails. -/
def getInterfaceInetAddressStr (ifas : Option (List Ifaddrs)) :
    Bool × List Byte :=
  match ifas with
  | none => (false, address)
  | some ifas => search getnameinfo family interfaceName address len ifas

/-- The address of the entry, if it has one of the family. -/
def Ifaddrs.addressOf (ifa : Ifaddrs) : Option Sockaddr :=
  ifa.ifaAddr.filter fun addr => addr.saFamily = family.code

/-- The first address of the family in the entries of the interface. -/
def firstNamed (ifas : List Ifaddrs) : Option Sockaddr :=
  ifas.findSome? fun ifa =>
    if ifa.ifaName.bytes = interfaceName.bytes then ifa.addressOf family
    else none

/-- The first address of the family in the entries of other interfaces. -/
def firstOther (ifas : List Ifaddrs) : Option Sockaddr :=
  ifas.findSome? fun ifa =>
    if ifa.ifaName.bytes = interfaceName.bytes then none
    else ifa.addressOf family

/-- The numeric form of an address, as the buffer holds it. -/
def numeric (addr : Sockaddr) : List Byte :=
  (getnameinfo addr family.addrsz address len).2

/-- What the lookup of the named interface gives. -/
def lookup (ifas : List Ifaddrs) : Bool × List Byte :=
  match firstNamed family interfaceName ifas with
  | some addr => (true, numeric getnameinfo family address len addr)
  | none => (false, address)

/-- `getnameinfo` succeeds on every address of the family in the list. -/
def Converts (ifas : List Ifaddrs) : Prop :=
  ∀ ifa ∈ ifas, ∀ addr ∈ ifa.addressOf family,
    (getnameinfo addr family.addrsz address len).1 = 0

end

section

variable {getnameinfo : Getnameinfo} {family : Family}
  {interfaceName : CString} {address : List Byte} {len : ℕ}
  {ifas : List Ifaddrs}

/-- Strings of which one is shorter than the bound are compared whole. -/
theorem strncmp_eq_zero_iff {left right : List Byte} {count : ℕ}
    (hleft : 0 ∉ left) (hright : 0 ∉ right) (hshort : left.length < count) :
    strncmp left right count = 0 ↔ left = right := by
  induction left generalizing right count with
  | nil =>
    obtain ⟨bound, rfl⟩ := Nat.exists_eq_add_one_of_ne_zero
      (Nat.ne_zero_of_lt hshort)
    cases right with
    | nil => simp [strncmp]
    | cons byte right =>
      have hbyte : byte ≠ 0 := fun hzero => hright (hzero ▸ List.mem_cons_self)
      have htoNat : byte.toNat ≠ 0 := fun hzero =>
        hbyte (BitVec.eq_of_toNat_eq hzero)
      simp [strncmp, htoNat]
  | cons byte left ih =>
    obtain ⟨bound, rfl⟩ := Nat.exists_eq_add_one_of_ne_zero
      (Nat.ne_zero_of_lt hshort)
    rw [List.mem_cons, not_or] at hleft
    cases right with
    | nil =>
      have htoNat : byte.toNat ≠ 0 := fun hzero =>
        hleft.1 (BitVec.eq_of_toNat_eq hzero).symm
      simp [strncmp, htoNat]
    | cons byte' right =>
      rw [List.mem_cons, not_or] at hright
      have hrest := ih hleft.2 hright.2 (Nat.lt_of_succ_lt_succ hshort)
      rw [strncmp, List.cons.injEq]
      split
      case isTrue hsame => rw [hrest, and_iff_right hsame]
      case isFalse hdiffers =>
        have htoNat : byte.toNat ≠ byte'.toNat := fun heq =>
          hdiffers (BitVec.eq_of_toNat_eq heq)
        rw [iff_false_intro (fun hboth => hdiffers (And.left hboth)),
          iff_false, sub_eq_zero, Nat.cast_inj]
        exact htoNat

theorem Ifaddrs.strncmp_ifaName (ifa : Ifaddrs) :
    strncmp ifa.ifaName.bytes interfaceName.bytes ifNamesize = 0 ↔
      ifa.ifaName.bytes = interfaceName.bytes :=
  strncmp_eq_zero_iff ifa.ifaName.noNul interfaceName.noNul ifa.short

/-- The loop converts the first address it finds under another name. -/
theorem search_eq : search getnameinfo family interfaceName address len ifas =
    match firstOther family interfaceName ifas with
    | some addr =>
        ((getnameinfo addr family.addrsz address len).1 == 0,
          numeric getnameinfo family address len addr)
    | none => (false, address) := by
  induction ifas with
  | nil => rfl
  | cons ifa ifas ih =>
    rw [firstOther] at ih ⊢
    rw [search, List.findSome?_cons]
    simp only [ne_eq, ifa.strncmp_ifaName]
    cases haddr : ifa.ifaAddr with
    | none =>
      have hnone : ifa.addressOf family = none := by
        rw [Ifaddrs.addressOf, haddr, Option.filter_none]
      rw [hnone, ite_self]
      exact ih
    | some addr =>
      by_cases hsame : ifa.ifaName.bytes = interfaceName.bytes
      · have hskip : ¬ (¬ ifa.ifaName.bytes = interfaceName.bytes ∧
            addr.saFamily = family.code) := fun hboth => hboth.1 hsame
        rw [if_pos hsame]
        exact (if_neg hskip).trans ih
      by_cases hfamily : addr.saFamily = family.code
      · have hsome : ifa.addressOf family = some addr := by
          rw [Ifaddrs.addressOf, haddr]
          exact Option.filter_some_pos (decide_eq_true hfamily)
        rw [if_neg hsame, hsome]
        exact if_pos ⟨hsame, hfamily⟩
      · have hnone : ifa.addressOf family = none := by
          rw [Ifaddrs.addressOf, haddr]
          exact Option.filter_some_neg (decide_eq_false hfamily)
        have hskip : ¬ (¬ ifa.ifaName.bytes = interfaceName.bytes ∧
            addr.saFamily = family.code) := fun hboth => hfamily hboth.2
        rw [if_neg hsame, hnone]
        exact (if_neg hskip).trans ih

theorem exists_of_firstOther {addr : Sockaddr}
    (hfirst : firstOther family interfaceName ifas = some addr) :
    ∃ ifa ∈ ifas, ifa.addressOf family = some addr := by
  rw [firstOther] at hfirst
  obtain ⟨ifa, hmem, haddr⟩ := List.exists_of_findSome?_eq_some hfirst
  refine ⟨ifa, hmem, ?_⟩
  split at haddr
  case isTrue => exact absurd haddr (Option.some_ne_none addr).symm
  case isFalse => exact haddr

/-- No entry has an address of the family just when neither the interface nor
another one has. -/
theorem firsts_eq_none_iff :
    firstNamed family interfaceName ifas = none ∧
        firstOther family interfaceName ifas = none ↔
      ∀ ifa ∈ ifas, ifa.addressOf family = none := by
  simp only [firstNamed, firstOther, List.findSome?_eq_none_iff]
  constructor
  · rintro ⟨hnamed, hother⟩ ifa hmem
    by_cases hsame : ifa.ifaName.bytes = interfaceName.bytes
    · rw [← hnamed ifa hmem, if_pos hsame]
    · rw [← hother ifa hmem, if_neg hsame]
  · intro hnone
    constructor
    · intro ifa hmem
      rw [hnone ifa hmem, ite_self]
    · intro ifa hmem
      rw [hnone ifa hmem, ite_self]

/-- The function looks up the named interface just when there is no address of
the family at all, or the interface and another one have one and the first ones
have the same numeric form. -/
theorem getInterfaceInetAddressStr_eq_lookup_iff
    (getnameinfo : Getnameinfo) (family : Family) (interfaceName : CString)
    (address : List Byte) (len : ℕ) (ifas : List Ifaddrs)
    (hconverts : Converts getnameinfo family address len ifas) :
    getInterfaceInetAddressStr getnameinfo family interfaceName address len
          (some ifas) =
        lookup getnameinfo family interfaceName address len ifas ↔
      (∀ ifa ∈ ifas, ifa.addressOf family = none) ∨
        ∃ named other, firstNamed family interfaceName ifas = some named ∧
          firstOther family interfaceName ifas = some other ∧
          numeric getnameinfo family address len named =
            numeric getnameinfo family address len other := by
  rw [← @firsts_eq_none_iff family interfaceName ifas,
    getInterfaceInetAddressStr, search_eq, lookup]
  cases hother : firstOther family interfaceName ifas with
  | none =>
    cases hnamed : firstNamed family interfaceName ifas with
    | none => simp
    | some named => simp
  | some other =>
    obtain ⟨ifa, hmem, haddr⟩ := exists_of_firstOther hother
    have hrc := hconverts ifa hmem other haddr
    cases hnamed : firstNamed family interfaceName ifas with
    | none => simp [hrc]
    | some named => simp [hrc, eq_comm]

end

/-! ## A host with a loopback interface -/

def loName : CString where
  bytes := Kvs.text "lo"
  noNul := by decide

/-- The loopback interface with 127.0.0.1. -/
def loopback : Ifaddrs where
  ifaName := loName
  ifaAddr := some ⟨2, [0, 0, 127, 0, 0, 1]⟩
  short := by decide

/-- The conversion of 127.0.0.1. -/
def loopbackName : Getnameinfo :=
  fun _ _ address _ => (0, Kvs.text "127.0.0.1" ++ 0 :: address.drop 10)

theorem lookup_loopback_iff :
    getInterfaceInetAddressStr loopbackName .inet loName
          (List.replicate 16 0) 16 (some [loopback]) =
        lookup loopbackName .inet loName (List.replicate 16 0) 16 [loopback] ↔
      (∀ ifa ∈ [loopback], ifa.addressOf .inet = none) ∨
        ∃ named other, firstNamed .inet loName [loopback] = some named ∧
          firstOther .inet loName [loopback] = some other ∧
          numeric loopbackName .inet (List.replicate 16 0) 16 named =
            numeric loopbackName .inet (List.replicate 16 0) 16 other :=
  getInterfaceInetAddressStr_eq_lookup_iff loopbackName .inet loName
    (List.replicate 16 0) 16 [loopback] fun _ _ _ _ => rfl

/-- The only interface is not found under its name. -/
theorem loopback_not_found :
    getInterfaceInetAddressStr loopbackName .inet loName
        (List.replicate 16 0) 16 (some [loopback]) ≠
      lookup loopbackName .inet loName (List.replicate 16 0) 16
        [loopback] := by
  decide

end Sensor.InterfaceAddress
