import Sensor.Net.ArpUtil
import Sensor.Net.PacketExtract

/-!
# The frames whose headers are found

A frame that is built from an Ethernet header, an IPv4 header, the header of a
transport and a payload is mapped to these parts.  The functions do not look at
the type of the frame, so that they also find parts in frames of other kinds.
-/

namespace Sensor.PacketExtract

open ByteOrder Region

/-! ## Building a frame -/

/-- `struct iphdr` and its options. -/
structure IpHeader where
  tos : Byte
  totLen : BitVec 16
  id : BitVec 16
  fragOff : BitVec 16
  ttl : Byte
  protocol : Byte
  check : BitVec 16
  saddr : BitVec 32
  daddr : BitVec 32
  options : List (BitVec 32)
  length_options : options.length ≤ 10

/-- `struct udphdr`. -/
structure UdpHeader where
  source : BitVec 16
  dest : BitVec 16
  len : BitVec 16
  check : BitVec 16

/-- `struct tcphdr` and its options. -/
structure TcpHeader where
  source : BitVec 16
  dest : BitVec 16
  seq : BitVec 32
  ackSeq : BitVec 32
  res1 : BitVec 4
  flags : Byte
  window : BitVec 16
  check : BitVec 16
  urgPtr : BitVec 16
  options : List (BitVec 32)
  length_options : options.length ≤ 10

namespace IpHeader

/-- The length in words, from 5 to 15. -/
def ihl (ip : IpHeader) : ℕ := 5 + ip.options.length

def bytes (ip : IpHeader) : List Byte :=
  [(4 : BitVec 4) ++ BitVec.ofNat 4 ip.ihl, ip.tos] ++ bytes16 ip.totLen ++
    bytes16 ip.id ++ bytes16 ip.fragOff ++ [ip.ttl, ip.protocol] ++
    bytes16 ip.check ++ bytes32 ip.saddr ++ bytes32 ip.daddr ++
    ip.options.flatMap bytes32

end IpHeader

def UdpHeader.bytes (udp : UdpHeader) : List Byte :=
  bytes16 udp.source ++ bytes16 udp.dest ++ bytes16 udp.len ++
    bytes16 udp.check

namespace TcpHeader

/-- The length in words, from 5 to 15. -/
def doff (tcp : TcpHeader) : ℕ := 5 + tcp.options.length

def bytes (tcp : TcpHeader) : List Byte :=
  bytes16 tcp.source ++ bytes16 tcp.dest ++ bytes32 tcp.seq ++
    bytes32 tcp.ackSeq ++ [BitVec.ofNat 4 tcp.doff ++ tcp.res1, tcp.flags] ++
    bytes16 tcp.window ++ bytes16 tcp.check ++ bytes16 tcp.urgPtr ++
    tcp.options.flatMap bytes32

end TcpHeader

/-- The header behind the IP header. -/
inductive Transport where
  | udp (header : UdpHeader)
  | tcp (header : TcpHeader)

namespace Transport

def protocol : Transport → Byte
  | .udp _ => ipprotoUdp
  | .tcp _ => ipprotoTcp

def bytes : Transport → List Byte
  | .udp header => header.bytes
  | .tcp header => header.bytes

/-- The length in bytes. -/
def size : Transport → ℕ
  | .udp _ => 8
  | .tcp header => header.doff * 4

end Transport

/-- A frame whose IP header announces the header behind it. -/
structure Frame where
  dhost : HwAddress
  shost : HwAddress
  ip : IpHeader
  transport : Transport
  payload : List Byte
  protocol_eq : ip.protocol = transport.protocol

namespace Frame

def ether (frame : Frame) : List Byte :=
  frame.dhost.octets ++ frame.shost.octets ++
    bytes16 (swap16 ArpUtil.ethPIp)

def bytes (frame : Frame) : List Byte :=
  frame.ether ++ (frame.ip.bytes ++ (frame.transport.bytes ++ frame.payload))

/-- The offset of the payload. -/
def payloadStart (frame : Frame) : ℕ :=
  14 + frame.ip.ihl * 4 + frame.transport.size

end Frame

/-! ### The lengths of the parts -/

theorem IpHeader.length_bytes (ip : IpHeader) :
    ip.bytes.length = ip.ihl * 4 := by
  simp [IpHeader.bytes, IpHeader.ihl]
  omega

theorem TcpHeader.length_bytes (tcp : TcpHeader) :
    tcp.bytes.length = tcp.doff * 4 := by
  simp [TcpHeader.bytes, TcpHeader.doff]
  omega

theorem Transport.length_bytes (transport : Transport) :
    transport.bytes.length = transport.size := by
  cases transport with
  | udp header => rfl
  | tcp header => exact header.length_bytes

namespace Frame

variable (frame : Frame)

theorem length_ether : frame.ether.length = 14 := by
  simp [ether, HwAddress.length_octets, ethAlen]

theorem length_bytes :
    frame.bytes.length = frame.payloadStart + frame.payload.length := by
  simp only [bytes, payloadStart, List.length_append, length_ether,
    IpHeader.length_bytes, Transport.length_bytes]
  omega

end Frame

/-! ### The bytes the functions look at -/

theorem toNat_nibbles (high low : BitVec 4) :
    (high ++ low : Byte).toNat = high.toNat * 16 + low.toNat := by
  have hlow := low.isLt
  rw [BitVec.toNat_append, Nat.shiftLeft_eq, ← Nat.mul_comm (2 ^ 4),
    Nat.two_pow_add_eq_or_of_lt hlow]

theorem IpHeader.ihl_lt (ip : IpHeader) : ip.ihl < 16 := by
  have hlength := ip.length_options
  rw [IpHeader.ihl]
  omega

theorem TcpHeader.doff_lt (tcp : TcpHeader) : tcp.doff < 16 := by
  have hlength := tcp.length_options
  rw [TcpHeader.doff]
  omega

section Memory

variable {frame : Frame} {buffer : ℕ → Byte}

/-- A byte of a frame that is in memory. -/
theorem eq_of_getElem? {bytes : List Byte} {place : ℕ} {byte : Byte}
    (hbuffer : read buffer 0 bytes.length = bytes)
    (hbyte : bytes[place]? = some byte) : buffer place = byte := by
  rw [← hbuffer] at hbyte
  obtain ⟨hplace, hget⟩ := List.getElem?_eq_some_iff.mp hbyte
  rw [getElem_read, Nat.zero_add] at hget
  exact hget

theorem Frame.getElem?_ip {index : ℕ} (hindex : index < frame.ip.ihl * 4) :
    frame.bytes[14 + index]? = frame.ip.bytes[index]? := by
  rw [← frame.length_ether, Frame.bytes, List.getElem?_append_right (by omega),
    Nat.add_sub_cancel_left, List.getElem?_append_left]
  rwa [frame.ip.length_bytes]

theorem Frame.getElem?_transport {index : ℕ}
    (hindex : index < frame.transport.size) :
    frame.bytes[14 + frame.ip.ihl * 4 + index]? =
      frame.transport.bytes[index]? := by
  rw [← frame.length_ether, ← frame.ip.length_bytes, Frame.bytes,
    Nat.add_assoc, List.getElem?_append_right (by omega),
    Nat.add_sub_cancel_left, List.getElem?_append_right (by omega),
    Nat.add_sub_cancel_left, List.getElem?_append_left]
  rwa [frame.transport.length_bytes]

theorem Frame.versionIhl_eq
    (hbuffer : read buffer 0 frame.bytes.length = frame.bytes) :
    (buffer 14).toNat = 64 + frame.ip.ihl := by
  have hbyte : frame.bytes[14 + 0]? = some _ :=
    Frame.getElem?_ip (by rw [IpHeader.ihl]; omega)
  rw [eq_of_getElem? hbuffer hbyte, toNat_nibbles, BitVec.toNat_ofNat,
    Nat.mod_eq_of_lt frame.ip.ihl_lt]
  rfl

theorem Frame.ihl_eq
    (hbuffer : read buffer 0 frame.bytes.length = frame.bytes) :
    ihl buffer 14 = frame.ip.ihl := by
  have hlt := frame.ip.ihl_lt
  rw [ihl, Frame.versionIhl_eq hbuffer]
  omega

theorem Frame.protocol_byte_eq
    (hbuffer : read buffer 0 frame.bytes.length = frame.bytes) :
    buffer 23 = frame.transport.protocol := by
  have hbyte : frame.bytes[14 + 9]? = some frame.ip.protocol :=
    Frame.getElem?_ip (by rw [IpHeader.ihl]; omega)
  rw [← frame.protocol_eq]
  exact eq_of_getElem? hbuffer hbyte

theorem Frame.doff_eq
    (hbuffer : read buffer 0 frame.bytes.length = frame.bytes)
    {tcp : TcpHeader} (htcp : frame.transport = .tcp tcp) :
    doff buffer (14 + frame.ip.ihl * 4) = tcp.doff := by
  have hbyte : frame.bytes[14 + frame.ip.ihl * 4 + 12]? =
      some (BitVec.ofNat 4 tcp.doff ++ tcp.res1) := by
    rw [Frame.getElem?_transport, htcp]
    · rfl
    · rw [htcp, Transport.size, TcpHeader.doff]
      omega
  have hres := tcp.res1.isLt
  rw [doff, doffByte, eq_of_getElem? hbuffer hbyte, toNat_nibbles,
    BitVec.toNat_ofNat, Nat.mod_eq_of_lt tcp.doff_lt]
  omega

/-- The bytes behind the headers. -/
theorem Frame.read_payload
    (hbuffer : read buffer 0 frame.bytes.length = frame.bytes) :
    read buffer frame.payloadStart frame.payload.length = frame.payload := by
  have hlength := frame.length_bytes
  have hfront : (frame.ether ++ (frame.ip.bytes ++
      frame.transport.bytes)).length = frame.payloadStart := by
    simp only [List.length_append, frame.length_ether, IpHeader.length_bytes,
      Transport.length_bytes, Frame.payloadStart]
    omega
  have hsplit : frame.bytes = (frame.ether ++ (frame.ip.bytes ++
      frame.transport.bytes)) ++ frame.payload := by
    simp only [Frame.bytes, List.append_assoc]
  have hpart := @take_drop_read _ buffer 0 frame.payloadStart
    frame.payload.length frame.bytes.length hlength.ge
  rw [Nat.zero_add] at hpart
  rw [← hpart, hbuffer, hsplit, ← hfront, List.drop_left, List.take_length]

/-- Every frame is mapped to its parts. -/
theorem packetMap_frame
    (hbuffer : read buffer 0 frame.bytes.length = frame.bytes) :
    (packetMapIp buffer frame.bytes.length).header = some 14 ∧
      (match frame.transport with
        | .udp _ =>
            (packetMapUdp buffer frame.bytes.length).header =
                some (14 + frame.ip.ihl * 4) ∧
              (packetMapTcp buffer frame.bytes.length).header = none
        | .tcp _ =>
            (packetMapTcp buffer frame.bytes.length).header =
                some (14 + frame.ip.ihl * 4) ∧
              (packetMapUdp buffer frame.bytes.length).header = none) ∧
      (packetMapPayload buffer frame.bytes.length).header =
        some (14 + frame.ip.ihl * 4 + frame.transport.size) ∧
      read buffer (14 + frame.ip.ihl * 4 + frame.transport.size)
          (frame.bytes.length -
            (14 + frame.ip.ihl * 4 + frame.transport.size)) =
        frame.payload := by
  have hlength := frame.length_bytes
  rw [Frame.payloadStart] at hlength
  have hle : 14 ≤ frame.bytes.length := by omega
  have hihl := Frame.ihl_eq hbuffer
  have hprotocol := Frame.protocol_byte_eq hbuffer
  have hpayload := Frame.read_payload hbuffer
  have hrest : frame.bytes.length -
      (14 + frame.ip.ihl * 4 + frame.transport.size) =
        frame.payload.length := by omega
  have hother : ipprotoTcp ≠ ipprotoUdp := by decide
  rw [packetMapIp_of_le hle, packetMapUdp_of_le hle, packetMapTcp_of_le hle,
    packetMapPayload_of_le hle, hprotocol, hihl, hrest]
  refine ⟨rfl, ?_, ?_, hpayload⟩
  · cases frame.transport with
    | udp header => simp [Transport.protocol, hother.symm]
    | tcp header => simp [Transport.protocol, hother]
  · cases htransport : frame.transport with
    | udp header => simp [Transport.protocol, Transport.size]
    | tcp header =>
        rw [Frame.doff_eq hbuffer htransport]
        simp [Transport.protocol, Transport.size, hother]

end Memory

/-- A segment behind an IP header with one option, whose own header has two. -/
def optionsFrame : Frame where
  dhost := HwAddress.etherBroadcast
  shost := HwAddress.zero
  ip := ⟨0, 38, 1, 0, 64, ipprotoTcp, 0, 0x0100007f, 0x0200007f, [7], by decide⟩
  transport := .tcp ⟨80, 1024, 1, 2, 0, 24, 512, 0, 0, [3, 4], by decide⟩
  payload := [104, 105]
  protocol_eq := rfl

theorem packetMap_frame_options :
    (packetMapTcp (write (fun _ => 0) 0 optionsFrame.bytes) 68).header =
        some 38 ∧
      (packetMapPayload (write (fun _ => 0) 0 optionsFrame.bytes) 68).header =
        some 66 ∧
      read (write (fun _ => 0) 0 optionsFrame.bytes) 66 2 = [104, 105] := by
  obtain ⟨-, ⟨htcp, -⟩, hpayload, hread⟩ := @packetMap_frame
    optionsFrame _ (@read_write _ (fun _ => 0) 0 optionsFrame.bytes)
  exact ⟨htcp, hpayload, hread⟩

/-! ## Frames of other kinds -/

/-- A frame with an IPv4 header in it, as far as its first byte tells. -/
structure IsIpv4 (buffer : ℕ → Byte) (len : ℕ) : Prop where
  len_gt : 14 < len
  ether_type : load16 buffer ArpUtil.etherType = swap16 ArpUtil.ethPIp
  version : (buffer 14).toNat / 16 = 4
  ihl_ge : 5 ≤ ihl buffer 14

/-- The functions return a pointer in an IPv4 frame only. -/
structure OnlyIpv4 (buffer : ℕ → Byte) (len : ℕ) : Prop where
  ip : (packetMapIp buffer len).header ≠ none → IsIpv4 buffer len
  udp : (packetMapUdp buffer len).header ≠ none → IsIpv4 buffer len
  tcp : (packetMapTcp buffer len).header ≠ none → IsIpv4 buffer len
  payload : (packetMapPayload buffer len).header ≠ none → IsIpv4 buffer len

section Kinds

variable {buffer : ℕ → Byte} {len : ℕ}

/-- A frame built of the parts is one. -/
theorem Frame.isIpv4 {frame : Frame}
    (hbuffer : read buffer 0 frame.bytes.length = frame.bytes) :
    IsIpv4 buffer frame.bytes.length where
  len_gt := by
    rw [frame.length_bytes, Frame.payloadStart, IpHeader.ihl]
    omega
  ether_type := by
    apply load16_of_read
    have hlength := frame.length_bytes
    rw [Frame.payloadStart] at hlength
    have hpart := @take_drop_read _ buffer 0 12 2 frame.bytes.length (by omega)
    have htype : (frame.bytes.drop 12).take 2 =
        bytes16 (swap16 ArpUtil.ethPIp) := by
      have hhosts : (frame.dhost.octets ++ frame.shost.octets).length = 12 := by
        simp [HwAddress.length_octets, ethAlen]
      rw [Frame.bytes, Frame.ether, List.append_assoc, ← hhosts, List.drop_left]
      rfl
    rw [← htype, ← hbuffer, hpart]
    rfl
  version := by
    have hlt := frame.ip.ihl_lt
    rw [Frame.versionIhl_eq hbuffer]
    omega
  ihl_ge := by
    rw [Frame.ihl_eq hbuffer, IpHeader.ihl]
    exact Nat.le_add_right 5 _

/-- No pointer is returned into a frame without an Ethernet header. -/
theorem header_eq_none_of_short (hshort : len < 14) :
    (packetMapIp buffer len).header = none ∧
      (packetMapUdp buffer len).header = none ∧
      (packetMapTcp buffer len).header = none ∧
      (packetMapPayload buffer len).header = none := by
  have hip := @packetMapIp_of_short buffer len hshort
  have hudp : (packetMapUdp buffer len).header = none := by
    rw [packetMapUdp, hip]
    rfl
  have htcp : (packetMapTcp buffer len).header = none := by
    rw [packetMapTcp, hip]
    rfl
  refine ⟨by rw [hip], hudp, htcp, ?_⟩
  simp [packetMapPayload, hudp, htcp]

/-- The functions take only IPv4 frames for IP exactly where the frame is one or
is too short for an Ethernet header: `packet_map_ip` accepts all others. -/
theorem onlyIpv4_iff :
    OnlyIpv4 buffer len ↔ len < 14 ∨ IsIpv4 buffer len := by
  constructor
  · intro honly
    rcases Nat.lt_or_ge len 14 with hshort | hle
    · exact Or.inl hshort
    · right
      apply honly.ip
      simp [packetMapIp_of_le hle]
  · rintro (hshort | hkind)
    · obtain ⟨hip, hudp, htcp, hpayload⟩ :=
        @header_eq_none_of_short buffer len hshort
      exact ⟨absurd hip, absurd hudp, absurd htcp, absurd hpayload⟩
    · exact ⟨fun _ => hkind, fun _ => hkind, fun _ => hkind, fun _ => hkind⟩

end Kinds

/-- An ARP reply from the address 02:11:22:33:44:55. -/
def arpFrame : List Byte :=
  HwAddress.zero.octets ++ [2, 17, 34, 51, 68, 85, 8, 6, 0, 1, 8, 0, 6, 4, 0, 2,
    2, 17, 34, 51, 68, 85, 127, 0, 0, 1] ++ HwAddress.zero.octets ++
      [127, 0, 0, 2]

/-- The second byte of that address is taken for the protocol of an IP header
without length, so that a UDP header is found. -/
theorem not_onlyIpv4_arpFrame :
    ¬ ∀ (buffer : ℕ → Byte) (len : ℕ), OnlyIpv4 buffer len := by
  intro honly
  have hudp : (packetMapUdp (write (fun _ => 0) 0 arpFrame) 42).header =
      some 14 := by
    rw [packetMapUdp_of_le (by decide)]
    rfl
  have hkind := (honly (write (fun _ => 0) 0 arpFrame) 42).udp
    (by rw [hudp]; exact Option.some_ne_none 14)
  exact absurd hkind.version (by decide)

end Sensor.PacketExtract
