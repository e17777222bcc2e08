import Sensor.Core.ByteOrder

/-!
# ARP frames

`arputil` lays `struct ether_header`, `struct arphdr` and `struct arp_ip4` over
the bytes of a frame.  Words are stored as the processor keeps them; addresses
and the constants passed through `htons` are in network order.  A buffer is the
memory from its first byte on.
-/

namespace Sensor

open Region ByteOrder

def ethAlen : ℕ := 6

/-- `uint8_t[ETH_ALEN]`. -/
structure HwAddress where
  octets : List Byte
  length_octets : octets.length = ethAlen
  deriving DecidableEq

namespace HwAddress

@[ext]
theorem ext {left right : HwAddress} (hoctets : left.octets = right.octets) :
    left = right := by
  cases left
  cases right
  simpa using hoctets

theorem drop_octets {hw : HwAddress} {count : ℕ} (hcount : 6 ≤ count) :
    hw.octets.drop count = [] :=
  List.drop_eq_nil_of_le (hw.length_octets.trans_le hcount)

/-- The address at a place of a frame. -/
def load (buffer : ℕ → Byte) (place : ℕ) : HwAddress where
  octets := read buffer place ethAlen
  length_octets := length_read

/-- `EtherBroadcast`. -/
def etherBroadcast : HwAddress where
  octets := List.replicate ethAlen 255
  length_octets := List.length_replicate

/-- The address that `memset` clears. -/
def zero : HwAddress where
  octets := List.replicate ethAlen 0
  length_octets := List.length_replicate

end HwAddress

namespace ArpUtil

/-! ## The places of the fields in a frame -/

def etherDhost : ℕ := 0
def etherShost : ℕ := 6
def etherType : ℕ := 12

/-- Behind `struct ether_header`. -/
def header : ℕ := 14
def arHrd : ℕ := header
def arPro : ℕ := header + 2
def arHln : ℕ := header + 4
def arPln : ℕ := header + 5
def arOp : ℕ := header + 6

/-- Behind `struct arphdr`. -/
def data : ℕ := header + 8
def arSha : ℕ := data
def arSip : ℕ := data + 6
def arTha : ℕ := data + 10
def arTip : ℕ := data + 16

def arpIp4Size : ℕ := data + 20

def ethPArp : BitVec 16 := 0x0806
def ethPIp : BitVec 16 := 0x0800
def arphrdEther : BitVec 16 := 1
def arpopRequest : BitVec 16 := 1
def arpopReply : BitVec 16 := 2

/-! ## The functions of the source -/

/-- `arp_reply_create`; its assertion stops the program. -/
def arpReplyCreate (buffer : ℕ → Byte) (my_ip4 : BitVec 32)
    (my_hw : HwAddress) (to_ip4 : BitVec 32) (to_hw : HwAddress) :
    Option (ℕ → Byte) :=
  if my_ip4 = to_ip4 then none
  else
    let buffer := write buffer etherDhost to_hw.octets
    let buffer := write buffer etherShost my_hw.octets
    let buffer := write buffer etherType (bytes16 (swap16 ethPArp))
    let buffer := write buffer arHrd (bytes16 (swap16 arphrdEther))
    let buffer := write buffer arPro (bytes16 (swap16 ethPIp))
    let buffer := write buffer arHln [6]
    let buffer := write buffer arPln [4]
    let buffer := write buffer arOp (bytes16 (swap16 arpopReply))
    let buffer := write buffer arSha my_hw.octets
    let buffer := write buffer arSip (bytes32 my_ip4)
    let buffer := write buffer arTha to_hw.octets
    some (write buffer arTip (bytes32 to_ip4))

/-- `arp_request_create`. -/
def arpRequestCreate (buffer : ℕ → Byte) (my_ip4 : BitVec 32)
    (my_hw : HwAddress) (to_ip4 : BitVec 32) : ℕ → Byte :=
  let buffer := write buffer etherDhost HwAddress.etherBroadcast.octets
  let buffer := write buffer etherShost my_hw.octets
  let buffer := write buffer etherType (bytes16 (swap16 ethPArp))
  let buffer := write buffer arHrd (bytes16 (swap16 arphrdEther))
  let buffer := write buffer arPro (bytes16 (swap16 ethPIp))
  let buffer := write buffer arHln [6]
  let buffer := write buffer arPln [4]
  let buffer := write buffer arOp (bytes16 (swap16 arpopRequest))
  let buffer := write buffer arSha my_hw.octets
  let buffer := write buffer arSip (bytes32 my_ip4)
  let buffer := write buffer arTha HwAddress.zero.octets
  write buffer arTip (bytes32 to_ip4)

/-- `arp_request_set_to_ip`. -/
def arpRequestSetToIp (buffer : ℕ → Byte) (to_ip4 : BitVec 32) : ℕ → Byte :=
  write buffer arTip (bytes32 to_ip4)

/-- `arp_is_reply`: the values of `out_ip4` and `out_hw` where it returns
`true`. -/
def arpIsReply (buffer : ℕ → Byte) (length : ℕ) (current_hw : HwAddress) :
    Option (BitVec 32 × HwAddress) :=
  if length < arpIp4Size then none
  else if HwAddress.load buffer etherShost = current_hw
      ∨ HwAddress.load buffer etherDhost ≠ current_hw
      ∨ load16 buffer etherType ≠ swap16 ethPArp
      ∨ load16 buffer arOp ≠ swap16 arpopReply
      ∨ HwAddress.load buffer arSha = current_hw
      ∨ HwAddress.load buffer arTha ≠ current_hw then none
  else some (load32 buffer arSip, HwAddress.load buffer arSha)

/-! ## Packets -/

/-- What an ARP frame says. -/
structure Packet where
  dhost : HwAddress
  shost : HwAddress
  op : BitVec 16
  sha : HwAddress
  sip : BitVec 32
  tha : HwAddress
  tip : BitVec 32

namespace Packet

/-- The bytes of a packet up to the target address. -/
def head (packet : Packet) : List Byte :=
  packet.dhost.octets ++ packet.shost.octets ++ [8, 6] ++ [0, 1] ++ [8, 0] ++
    [6] ++ [4] ++ bytes16 (swap16 packet.op) ++ packet.sha.octets ++
    bytes32 packet.sip ++ packet.tha.octets

/-- The bytes of a packet. -/
def bytes (packet : Packet) : List Byte :=
  packet.head ++ bytes32 packet.tip

/-- The reply `arp_reply_create` writes. -/
def reply (my_ip4 : BitVec 32) (my_hw : HwAddress) (to_ip4 : BitVec 32)
    (to_hw : HwAddress) : Packet where
  dhost := to_hw
  shost := my_hw
  op := arpopReply
  sha := my_hw
  sip := my_ip4
  tha := to_hw
  tip := to_ip4

/-- The request `arp_request_create` writes. -/
def request (my_ip4 : BitVec 32) (my_hw : HwAddress) (to_ip4 : BitVec 32) :
    Packet where
  dhost := HwAddress.etherBroadcast
  shost := my_hw
  op := arpopRequest
  sha := my_hw
  sip := my_ip4
  tha := HwAddress.zero
  tip := to_ip4

/-- The packet is a reply to `hw` by someone else. -/
def RepliesTo (packet : Packet) (hw : HwAddress) : Prop :=
  packet.op = arpopReply ∧ packet.shost ≠ hw ∧ packet.sha ≠ hw ∧
    packet.dhost = hw ∧ packet.tha = hw

instance (packet : Packet) (hw : HwAddress) :
    Decidable (packet.RepliesTo hw) :=
  inferInstanceAs (Decidable (_ ∧ _))

theorem length_head (packet : Packet) : packet.head.length = arTip := by
  simp [head, HwAddress.length_octets, ethAlen, arTip, data, header]

theorem length_bytes (packet : Packet) :
    packet.bytes.length = arpIp4Size := by
  simp [bytes, length_head, arTip, arpIp4Size]

end Packet

section Create

variable {buffer : ℕ → Byte} {my_ip4 to_ip4 : BitVec 32}
variable {my_hw to_hw : HwAddress}

theorem bytes16_ethPArp : bytes16 (swap16 ethPArp) = [8, 6] := by decide

theorem bytes16_arphrdEther : bytes16 (swap16 arphrdEther) = [0, 1] := by
  decide

theorem bytes16_ethPIp : bytes16 (swap16 ethPIp) = [8, 0] := by decide

theorem arpReplyCreate_eq (hdistinct : my_ip4 ≠ to_ip4) :
    arpReplyCreate buffer my_ip4 my_hw to_ip4 to_hw =
      some (write buffer 0 (Packet.reply my_ip4 my_hw to_ip4 to_hw).bytes) := by
  simp only [arpReplyCreate, if_neg hdistinct, etherDhost]
  repeat rw [write_write_append (by
    simp [HwAddress.length_octets, ethAlen, etherShost, etherType, arHrd, arPro,
      arHln, arPln, arOp, arSha, arSip, arTha, arTip, data, header])]
  rw [bytes16_ethPArp, bytes16_arphrdEther, bytes16_ethPIp]
  simp only [Packet.bytes, Packet.head, Packet.reply, List.append_assoc]

theorem arpRequestCreate_eq :
    arpRequestCreate buffer my_ip4 my_hw to_ip4 =
      write buffer 0 (Packet.request my_ip4 my_hw to_ip4).bytes := by
  simp only [arpRequestCreate, etherDhost]
  repeat rw [write_write_append (by
    simp [HwAddress.length_octets, ethAlen, etherShost, etherType, arHrd, arPro,
      arHln, arPln, arOp, arSha, arSip, arTha, arTip, data, header])]
  rw [bytes16_ethPArp, bytes16_arphrdEther, bytes16_ethPIp]
  simp only [Packet.bytes, Packet.head, Packet.request, List.append_assoc]

/-- `arp_request_set_to_ip` exchanges the target address of a packet. -/
theorem arpRequestSetToIp_write {packet : Packet} :
    arpRequestSetToIp (write buffer 0 packet.bytes) to_ip4 =
      write buffer 0 { packet with tip := to_ip4 }.bytes := by
  refine write_write_replace ?_ ?_
  · rw [packet.length_head, Nat.zero_add]
  · rw [length_bytes32, length_bytes32]

/-- So do any number of calls, of which the last one counts. -/
theorem foldl_arpRequestSetToIp {packet : Packet} (targets : List (BitVec 32)) :
    targets.foldl arpRequestSetToIp (write buffer 0 packet.bytes) =
      write buffer 0
        { packet with tip := targets.getLast?.getD packet.tip }.bytes := by
  induction targets generalizing packet with
  | nil => rfl
  | cons target targets ih =>
      rw [List.foldl_cons, arpRequestSetToIp_write, ih, List.getLast?_cons]
      rfl

end Create

/-! ## Recognising replies -/

section Recognise

variable {frame : ℕ → Byte} {packet : Packet}

/-- A field of a frame that starts with the bytes of a packet. -/
theorem read_field {place length : ℕ}
    (hframe : read frame 0 arpIp4Size = packet.bytes)
    (hplace : place + length ≤ arpIp4Size) :
    read frame place length = (packet.bytes.drop place).take length := by
  rw [← hframe, take_drop_read hplace, Nat.zero_add]

theorem load_field {place : ℕ} {hw : HwAddress}
    (hframe : read frame 0 arpIp4Size = packet.bytes)
    (hplace : place + ethAlen ≤ arpIp4Size)
    (hfield : (packet.bytes.drop place).take ethAlen = hw.octets) :
    HwAddress.load frame place = hw := by
  ext1
  exact (read_field hframe hplace).trans hfield

/-- The fields of a frame that starts with the bytes of a packet. -/
theorem loads_of_read (hframe : read frame 0 arpIp4Size = packet.bytes) :
    HwAddress.load frame etherDhost = packet.dhost ∧
      HwAddress.load frame etherShost = packet.shost ∧
      load16 frame etherType = swap16 ethPArp ∧
      load16 frame arOp = swap16 packet.op ∧
      HwAddress.load frame arSha = packet.sha ∧
      load32 frame arSip = packet.sip ∧
      HwAddress.load frame arTha = packet.tha := by
  have hdhost := packet.dhost.length_octets
  have hshost := packet.shost.length_octets
  have hsha := packet.sha.length_octets
  have htha := packet.tha.length_octets
  simp only [ethAlen] at hdhost hshost hsha htha
  refine ⟨load_field hframe (by decide) ?_, load_field hframe (by decide) ?_,
    load16_of_read ((read_field hframe (by decide)).trans ?_),
    load16_of_read ((read_field hframe (by decide)).trans ?_),
    load_field hframe (by decide) ?_,
    load32_of_read ((read_field hframe (by decide)).trans ?_),
    load_field hframe (by decide) ?_⟩
  all_goals
    simp [Packet.bytes, Packet.head, List.drop_append, List.take_append,
      ethAlen, etherDhost, etherShost, etherType, arOp, arSha, arSip, arTha,
      data, header, HwAddress.drop_octets, bytes16, bytes32, hdhost, hshost,
      hsha, htha]
  decide

/-- A frame that starts with the bytes of a packet is recognised exactly where
the packet is a reply to the current address. -/
theorem arpIsReply_of_read {length : ℕ} {hw : HwAddress}
    (hframe : read frame 0 arpIp4Size = packet.bytes)
    (hlength : arpIp4Size ≤ length) :
    arpIsReply frame length hw =
      if packet.RepliesTo hw then some (packet.sip, packet.sha) else none := by
  obtain ⟨hdhost, hshost, htype, hop, hsha, hsip, htha⟩ := loads_of_read hframe
  have hswap : swap16 packet.op = swap16 arpopReply ↔
      packet.op = arpopReply := swap16_injective.eq_iff
  rw [arpIsReply, if_neg (Nat.not_lt.mpr hlength), hdhost, hshost, htype, hop,
    hsha, hsip, htha]
  by_cases hreplies : packet.RepliesTo hw
  · have hpasses := hreplies
    simp only [Packet.RepliesTo] at hpasses
    rw [if_pos hreplies, if_neg]
    simp [hpasses]
  · have hfails := hreplies
    simp only [Packet.RepliesTo] at hfails
    rw [if_neg hreplies, if_pos]
    grind

/-- No request is recognised. -/
theorem arpIsReply_of_request {length : ℕ} {hw : HwAddress}
    (hframe : read frame 0 arpIp4Size = packet.bytes)
    (hop : packet.op = arpopRequest) : arpIsReply frame length hw = none := by
  rcases Nat.lt_or_ge length arpIp4Size with hshort | hlong
  · exact if_pos hshort
  · have hdiffers : ¬ packet.RepliesTo hw := by
      intro hreplies
      have heq : arpopRequest = arpopReply := hop.symm.trans hreplies.1
      exact absurd heq (by decide)
    rw [arpIsReply_of_read hframe hlong, if_neg hdiffers]

/-- A frame that agrees with a written packet on its first bytes, whatever
follows them, starts with the bytes of the packet. -/
theorem read_of_agrees {buffer : ℕ → Byte}
    (hagrees : ∀ place, place < arpIp4Size →
      frame place = write buffer 0 packet.bytes place) :
    read frame 0 arpIp4Size = packet.bytes := by
  have hsame : read frame 0 arpIp4Size =
      read (write buffer 0 packet.bytes) 0 arpIp4Size := by
    apply read_congr
    intro index hindex
    rw [Nat.zero_add]
    exact hagrees index hindex
  rw [hsame, ← packet.length_bytes, read_write]

end Recognise

/-- The encoders and the recogniser agree.  A frame whose first bytes
`arp_reply_create` wrote is a reply exactly for the host it is addressed to
where that is not its sender, and gives the sender; a frame whose first bytes
`arp_request_create` wrote, patched any number of times, is none. -/
theorem arpIsReply_iff_created (buffer : ℕ → Byte) :
    (∀ (x y : BitVec 32) (a b : HwAddress), x ≠ y →
      ∃ written, arpReplyCreate buffer x a y b = some written ∧
        ∀ (frame : ℕ → Byte) (length : ℕ) (cur : HwAddress),
          arpIp4Size ≤ length →
          (∀ place, place < arpIp4Size → frame place = written place) →
          arpIsReply frame length cur =
            if a ≠ cur ∧ b = cur then some (x, a) else none) ∧
    ∀ (x y : BitVec 32) (a : HwAddress) (targets : List (BitVec 32))
      (frame : ℕ → Byte) (length : ℕ) (cur : HwAddress),
      (∀ place, place < arpIp4Size → frame place =
        targets.foldl arpRequestSetToIp (arpRequestCreate buffer x a y)
          place) →
      arpIsReply frame length cur = none := by
  constructor
  · intro x y a b hdistinct
    refine ⟨_, arpReplyCreate_eq hdistinct, ?_⟩
    intro frame length cur hlength hagrees
    have hiff : (Packet.reply x a y b).RepliesTo cur ↔ a ≠ cur ∧ b = cur := by
      simp only [Packet.RepliesTo, Packet.reply, true_and]
      tauto
    rw [arpIsReply_of_read (read_of_agrees hagrees) hlength]
    simp only [hiff]
    rfl
  · intro x y a targets frame length cur hagrees
    rw [arpRequestCreate_eq, foldl_arpRequestSetToIp] at hagrees
    exact arpIsReply_of_request (read_of_agrees hagrees) rfl

/-- A reply in a padded frame, and a request patched once. -/
theorem arpIsReply_created_padded :
    (∃ written, arpReplyCreate (fun _ => 0) 1 HwAddress.zero 2
        HwAddress.etherBroadcast = some written ∧
      arpIsReply written 60 HwAddress.etherBroadcast =
        some (1, HwAddress.zero)) ∧
    arpIsReply (arpRequestSetToIp (arpRequestCreate (fun _ => 0) 1
      HwAddress.zero 0) 2) 60 HwAddress.etherBroadcast = none := by
  obtain ⟨hreply, hrequest⟩ := arpIsReply_iff_created fun _ => 0
  obtain ⟨written, hcreate, hrecognised⟩ := hreply 1 2 HwAddress.zero
    HwAddress.etherBroadcast (by decide)
  refine ⟨⟨written, hcreate, ?_⟩, ?_⟩
  · exact hrecognised written 60 HwAddress.etherBroadcast (by decide)
      fun _ _ => rfl
  · exact hrequest 1 0 HwAddress.zero [2] _ 60 HwAddress.etherBroadcast
      fun _ _ => rfl

end ArpUtil

end Sensor
