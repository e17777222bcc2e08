import Sensor.Base.SizeT
import Sensor.Net.ArpUtil
import Sensor.Net.Subnet
import Mathlib.Tactic.IntervalCases

/-!
# The survey of the local network

`Poluter::perform_survey` injects an ARP request for every address it counts
from the network address on.  Addresses are in network order where the source
keeps them so.  A step without defined behaviour ends the survey with `none`.
-/

namespace Sensor

open Region ByteOrder ArpUtil

/-- `bitcount` of `base/util.c`. -/
def bitcount (n : BitVec 32) : ℤ :=
  let count := n - (n >>> 1 &&& 0o33333333333) - (n >>> 2 &&& 0o11111111111)
  (((count + count >>> 3) &&& 0o30707070707) % 63).toNat

/-- What the survey reads of `struct InterfaceInfo`. -/
structure InterfaceInfo where
  local_ : BitVec 32
  netmask : BitVec 32
  hw : HwAddress

namespace Poluter

/-- `1 << count` in `int`; the shift into the sign bit gives the least `int`. -/
def shiftOne (count : ℤ) : Option ℤ :=
  if 0 ≤ count ∧ count < 31 then some (2 ^ count.toNat)
  else if count = 31 then some (-2 ^ 31)
  else none

/-- A subtraction in `int`, which must not overflow. -/
def subInt (left right : ℤ) : Option ℤ :=
  if -2 ^ 31 ≤ left - right ∧ left - right < 2 ^ 31 then some (left - right)
  else none

/-- `nodeCount` of the survey. -/
def nodeCount (netmask : BitVec 32) : Option ℕ :=
  (shiftOne (32 - bitcount netmask)).bind fun size =>
    (subInt size 2).map SizeT.ofInt

/-- The rounds of the loop from `i` on, of which `remaining` are left.  The
`call`-th call of `inject` returns `inject call`.  A failed call is reported
with a format of two strings and one argument, unless the build leaves the
reports out. -/
def surveyLoop (ndebug : Bool) (inject : ℕ → ℤ) (ip4 network : BitVec 32)
    (buffer : ℕ → Byte) (call i : ℕ) : ℕ → Option (List (List Byte))
  | 0 => some []
  | remaining + 1 =>
      let ip4addr := swap32
        (BitVec.ofNat 32 (SizeT.add (SizeT.add network.toNat i) 1))
      if ip4addr ≠ ip4 then
        let buffer := arpRequestSetToIp buffer ip4addr
        if inject call = -1 ∧ ndebug = false then none
        else
          (surveyLoop ndebug inject ip4 network buffer (call + 1) (i + 1)
            remaining).map fun frames => read buffer 0 arpIp4Size :: frames
      else
        surveyLoop ndebug inject ip4 network buffer call (i + 1) remaining

/-- `perform_survey`: the frames it injects. -/
def performSurvey (ndebug : Bool) (inject : ℕ → ℤ) (buffer : ℕ → Byte)
    (info : InterfaceInfo) : Option (List (List Byte)) :=
  let ip4 := info.local_
  let buffer := arpRequestCreate buffer ip4 info.hw 0
  (nodeCount info.netmask).bind fun nodeCount =>
    let network := swap32 (ip4 &&& info.netmask)
    surveyLoop ndebug inject ip4 network buffer 0 0 nodeCount

/-! ## The count of nodes -/

theorem bitcount_netmask {length : ℕ} (hlength : length ≤ 32) :
    bitcount (swap32 (Subnet.netmask length)) = length := by
  have hall : ∀ length : Fin 33,
      bitcount (swap32 (Subnet.netmask length)) = length.val := by
    decide
  exact hall ⟨length, Nat.lt_succ_of_le hlength⟩

theorem nodeCount_netmask {length : ℕ} (hlow : 2 ≤ length)
    (hhigh : length ≤ 31) :
    nodeCount (swap32 (Subnet.netmask length)) =
      some (2 ^ (32 - length) - 2) := by
  rw [nodeCount, bitcount_netmask (hhigh.trans (by decide))]
  interval_cases length
  all_goals rfl

/-- With one or two bits for the prefix no `int` holds the count. -/
theorem nodeCount_of_short {length : ℕ} (hshort : length ≤ 1) :
    nodeCount (swap32 (Subnet.netmask length)) = none := by
  rw [nodeCount, bitcount_netmask (hshort.trans (by decide))]
  interval_cases length
  all_goals rfl

/-- For a subnet of one address the count is -1 and wraps. -/
theorem nodeCount_of_host :
    nodeCount (swap32 (Subnet.netmask 32)) = some (2 ^ 64 - 1) := by
  rw [nodeCount, bitcount_netmask le_rfl]
  rfl

/-! ## The loop -/

/-- Of `count` calls from `call` on none fails, or no failure is reported. -/
def Answered (ndebug : Bool) (inject : ℕ → ℤ) (call count : ℕ) : Prop :=
  ndebug = true ∨ ∀ index, index < count → inject (call + index) ≠ -1

section Loop

variable {ndebug : Bool} {inject : ℕ → ℤ} {ip4 network tip : BitVec 32}
variable {hw : HwAddress} {initial : ℕ → Byte} {frames : List (List Byte)}

theorem answered_zero {call : ℕ} : Answered ndebug inject call 0 := by
  right
  intro index hindex
  exact absurd hindex (Nat.not_lt_zero index)

theorem answered_succ_iff {call count : ℕ} :
    Answered ndebug inject call (count + 1) ↔
      ¬ (inject call = -1 ∧ ndebug = false) ∧
        Answered ndebug inject (call + 1) count := by
  have hshift : ∀ index, call + 1 + index = call + (index + 1) := by
    intro index
    omega
  simp only [Answered, Nat.forall_lt_succ_left, Nat.add_zero, hshift]
  cases ndebug
  · simp
  · simp

/-- The address of a round, in network order. -/
def roundAddress (network : BitVec 32) (i : ℕ) : BitVec 32 :=
  swap32 (BitVec.ofNat 32 (network.toNat + i + 1))

/-- The addresses of the rounds from `i` on that are not the own one. -/
def roundTargets (ip4 network : BitVec 32) (i remaining : ℕ) :
    List (BitVec 32) :=
  ((List.range' i remaining).map (roundAddress network)).filter (· ≠ ip4)

theorem surveyLoop_succ {buffer : ℕ → Byte} {call i remaining : ℕ}
    (hbound : network.toNat + i + 1 < 2 ^ 64) :
    surveyLoop ndebug inject ip4 network buffer call i (remaining + 1) =
      if roundAddress network i = ip4 then
        surveyLoop ndebug inject ip4 network buffer call (i + 1) remaining
      else if inject call = -1 ∧ ndebug = false then none
      else
        (surveyLoop ndebug inject ip4 network
          (arpRequestSetToIp buffer (roundAddress network i)) (call + 1) (i + 1)
          remaining).map fun frames =>
            read (arpRequestSetToIp buffer (roundAddress network i)) 0
              arpIp4Size :: frames := by
  have hfirst : SizeT.add network.toNat i = network.toNat + i :=
    SizeT.add_of_lt (by omega)
  have hsecond : SizeT.add (network.toNat + i) 1 = network.toNat + i + 1 :=
    SizeT.add_of_lt (by omega)
  rw [surveyLoop, hfirst, hsecond]
  exact ite_not ..

/-- The loop injects the request for each address of its rounds. -/
theorem surveyLoop_eq_some_iff {call i remaining : ℕ}
    (hbound : network.toNat + i + remaining < 2 ^ 64) :
    surveyLoop ndebug inject ip4 network
        (write initial 0 (Packet.request ip4 hw tip).bytes) call i remaining =
      some frames ↔
    Answered ndebug inject call
        (roundTargets ip4 network i remaining).length ∧
      frames = (roundTargets ip4 network i remaining).map fun target =>
        (Packet.request ip4 hw target).bytes := by
  induction remaining generalizing tip call i frames with
  | zero =>
      simp [surveyLoop, roundTargets, answered_zero, eq_comm]
  | succ remaining ih =>
      have hrest : network.toNat + (i + 1) + remaining < 2 ^ 64 := by omega
      rw [surveyLoop_succ (by omega)]
      by_cases hown : roundAddress network i = ip4
      · have htargets : roundTargets ip4 network i (remaining + 1) =
            roundTargets ip4 network (i + 1) remaining := by
          simp [roundTargets, List.range'_succ, hown]
        rw [if_pos hown, ih hrest, htargets]
      · have htargets : roundTargets ip4 network i (remaining + 1) =
            roundAddress network i ::
              roundTargets ip4 network (i + 1) remaining := by
          simp [roundTargets, List.range'_succ, hown]
        rw [if_neg hown, htargets, List.length_cons, List.map_cons,
          answered_succ_iff]
        by_cases hfails : inject call = -1 ∧ ndebug = false
        · rw [if_pos hfails]
          simp [hfails]
        · have hframe : read (write initial 0
              (Packet.request ip4 hw (roundAddress network i)).bytes) 0
                arpIp4Size =
              (Packet.request ip4 hw (roundAddress network i)).bytes := by
            rw [← Packet.length_bytes, read_write]
          rw [if_neg hfails, arpRequestSetToIp_write]
          change Option.map (fun frames => read (write initial 0
            (Packet.request ip4 hw (roundAddress network i)).bytes) 0
              arpIp4Size :: frames) _ = _ ↔ _
          rw [hframe, Option.map_eq_some_iff]
          constructor
          · rintro ⟨rest, hloop, rfl⟩
            obtain ⟨hanswered, rfl⟩ := (ih hrest).mp hloop
            exact ⟨⟨hfails, hanswered⟩, rfl⟩
          · rintro ⟨⟨-, hanswered⟩, rfl⟩
            exact ⟨_, (ih hrest).mpr ⟨hanswered, rfl⟩, rfl⟩

/-- A loop that begins with an address other than the own one does not end
without a frame. -/
theorem surveyLoop_ne_nil {buffer : ℕ → Byte} {call i remaining : ℕ}
    (hbound : network.toNat + i + 1 < 2 ^ 64)
    (hother : roundAddress network i ≠ ip4) :
    surveyLoop ndebug inject ip4 network buffer call i (remaining + 1) ≠
      some [] := by
  rw [surveyLoop_succ hbound, if_neg hother]
  split
  · simp
  · simp

end Loop

/-! ## The survey -/

section Survey

variable {ndebug : Bool} {inject : ℕ → ℤ} {ip : BitVec 32} {hw : HwAddress}
variable {buffer : ℕ → Byte} {length : ℕ}

/-- An interface with the address `ip` and a netmask of `length` bits. -/
def interface_ (ip : BitVec 32) (length : ℕ) (hw : HwAddress) :
    InterfaceInfo where
  local_ := swap32 ip
  netmask := swap32 (Subnet.netmask length)
  hw := hw

/-- The frames that ask for each host of the subnet of `ip`. -/
def requests (ip : BitVec 32) (length : ℕ) (hw : HwAddress) :
    List (List Byte) :=
  (Subnet.hosts ip length).map fun host =>
    (Packet.request (swap32 ip) hw (swap32 host)).bytes

theorem network_eq :
    swap32 (swap32 ip &&& swap32 (Subnet.netmask length)) =
      Subnet.networkAddress ip length := by
  rw [← swap32_and, swap32_swap32]
  rfl

/-- The addresses of the rounds are the hosts of the subnet. -/
theorem roundTargets_eq :
    roundTargets (swap32 ip) (Subnet.networkAddress ip length) 0
        (2 ^ (32 - length) - 2) =
      (Subnet.hosts ip length).map swap32 := by
  have hmap : (List.range (2 ^ (32 - length) - 2)).map
        (roundAddress (Subnet.networkAddress ip length)) =
      ((List.range (2 ^ (32 - length) - 2)).map fun index => BitVec.ofNat 32
        ((Subnet.networkAddress ip length).toNat + index + 1)).map swap32 := by
    rw [List.map_map]
    rfl
  have hfilter : (fun address => decide (address ≠ swap32 ip)) ∘ swap32 =
      fun address => decide (address ≠ ip) := by
    funext address
    simp [swap32_injective.eq_iff]
  rw [Subnet.hosts_eq, roundTargets, ← List.range_eq_range', hmap,
    List.filter_map, hfilter]

theorem performSurvey_of_nodeCount {count : ℕ}
    (hcount : nodeCount (swap32 (Subnet.netmask length)) = some count) :
    performSurvey ndebug inject buffer (interface_ ip length hw) =
      surveyLoop ndebug inject (swap32 ip) (Subnet.networkAddress ip length)
        (write buffer 0 (Packet.request (swap32 ip) hw 0).bytes) 0 0 count := by
  simp only [performSurvey, interface_, hcount, Option.bind_some, network_eq,
    arpRequestCreate_eq]

/-- With one or two bits for the prefix the count overflows. -/
theorem performSurvey_of_short (hshort : length ≤ 1) :
    performSurvey ndebug inject buffer (interface_ ip length hw) = none := by
  simp only [performSurvey, interface_, nodeCount_of_short hshort,
    Option.bind_none]

/-- The survey of a subnet of one address begins outside of it. -/
theorem performSurvey_of_host :
    performSurvey ndebug inject buffer (interface_ ip 32 hw) ≠ some [] := by
  have hnetwork : Subnet.networkAddress ip 32 = ip := by
    rw [Subnet.networkAddress, Subnet.netmask, Nat.sub_self,
      BitVec.shiftLeft_zero, BitVec.and_allOnes]
  have hother : roundAddress (Subnet.networkAddress ip 32) 0 ≠ swap32 ip := by
    rw [hnetwork, roundAddress, Ne, swap32_injective.eq_iff, ← BitVec.toNat_inj,
      BitVec.toNat_ofNat]
    omega
  rw [performSurvey_of_nodeCount nodeCount_of_host]
  have hnumber := (Subnet.networkAddress ip 32).isLt
  exact surveyLoop_ne_nil (by omega) hother

/-- `perform_survey` probes exactly the hosts of the subnet for prefixes of 2
to 31 bits where no failure is reported. -/
theorem performSurvey_eq_requests_iff (ndebug : Bool) (inject : ℕ → ℤ)
    (buffer : ℕ → Byte) (ip : BitVec 32) (hw : HwAddress) {length : ℕ}
    (hlength : length ≤ 32) :
    performSurvey ndebug inject buffer (interface_ ip length hw) =
        some (requests ip length hw) ↔
      2 ≤ length ∧ length ≤ 31 ∧
        (ndebug = true ∨ ∀ call, call < (Subnet.hosts ip length).length →
          inject call ≠ -1) := by
  rcases Nat.lt_or_ge length 2 with hshort | hlow
  · rw [performSurvey_of_short (Nat.le_of_lt_succ hshort)]
    constructor
    · exact fun habsurd => absurd habsurd (by simp)
    · exact fun hcondition => absurd hcondition.1 (Nat.not_le.mpr hshort)
  rcases Nat.lt_or_ge 31 length with hlong | hhigh
  · obtain rfl : length = 32 := Nat.le_antisymm hlength hlong
    have hnone : requests ip 32 hw = [] := by
      rw [requests, Subnet.hosts_eq_nil (by decide), List.map_nil]
    rw [hnone]
    constructor
    · exact fun habsurd => absurd habsurd performSurvey_of_host
    · exact fun hcondition => absurd hcondition.2.1 (by decide)
  have hsize : 2 ^ (32 - length) ≤ 2 ^ 32 :=
    Nat.pow_le_pow_right (by decide) (by omega)
  have hnetwork := (Subnet.networkAddress ip length).isLt
  have hanswered : Answered ndebug inject 0 (Subnet.hosts ip length).length ↔
      (ndebug = true ∨ ∀ call, call < (Subnet.hosts ip length).length →
        inject call ≠ -1) := by
    simp only [Answered, Nat.zero_add]
  rw [performSurvey_of_nodeCount (nodeCount_netmask hlow hhigh),
    surveyLoop_eq_some_iff (by omega), roundTargets_eq, List.length_map,
    List.map_map, hanswered]
  constructor
  · rintro ⟨hcalls, -⟩
    exact ⟨hlow, hhigh, hcalls⟩
  · rintro ⟨-, -, hcalls⟩
    exact ⟨hcalls, rfl⟩

/-- The survey of an ordinary subnet whose calls succeed. -/
theorem performSurvey_eq_requests_ordinary :
    performSurvey false (fun _ => 42) (fun _ => 0)
        (interface_ 0xC0A80001 24 HwAddress.zero) =
      some (requests 0xC0A80001 24 HwAddress.zero) :=
  (performSurvey_eq_requests_iff false (fun _ => 42) (fun _ => 0) 0xC0A80001
    HwAddress.zero (by decide)).mpr ⟨by decide, by decide, Or.inr fun _ _ => by
      decide⟩

/-- The survey of a subnet of one address, which has no hosts, injects
frames. -/
theorem performSurvey_host_injects :
    requests 0xC0A80001 32 HwAddress.zero = [] ∧
      performSurvey false (fun _ => 42) (fun _ => 0)
          (interface_ 0xC0A80001 32 HwAddress.zero) ≠
        some (requests 0xC0A80001 32 HwAddress.zero) := by
  have hnone : requests 0xC0A80001 32 HwAddress.zero = [] := by
    rw [requests, Subnet.hosts_eq_nil (by decide), List.map_nil]
  rw [hnone]
  exact ⟨rfl, performSurvey_of_host⟩

end Survey

end Poluter

end Sensor
