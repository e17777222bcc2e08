import Mathlib.Data.List.Basic
import Sensor.Base.SizeT
import Sensor.Core.ByteOrder

/-!
# Mapping the headers of a packet

The functions of `packet_extract.c` find the headers of a captured frame.  A
frame is the memory from its first byte on, of which `len` bytes are the
frame's; a header is the offset of its first byte.  Next to its result each
function gives the offsets of the bytes it read.
-/

namespace Sensor.PacketExtract

open ByteOrder

/-- The pointer a function returns and the offsets it read. -/
structure Mapping where
  header : Option ℕ
  reads : List ℕ
  deriving DecidableEq

/-- What follows the test of a mapped pointer: nothing for a null pointer. -/
def Mapping.andThen (mapping : Mapping) (rest : ℕ → Mapping) : Mapping :=
  match mapping.header with
  | none => mapping
  | some header =>
      { header := (rest header).header
        reads := mapping.reads ++ (rest header).reads }

/-- `sizeof(struct ether_header)`. -/
def sizeofEther : ℕ := 14

/-- `sizeof(struct udphdr)`. -/
def sizeofUdp : ℕ := 8

def ipprotoTcp : Byte := 6
def ipprotoUdp : Byte := 17

/-- The length field `ihl` of the IP header at `header`, a low nibble. -/
def ihl (buffer : ℕ → Byte) (header : ℕ) : ℕ :=
  (buffer header).toNat % 16

/-- The offset of `protocol` in an IP header. -/
def protocol : ℕ := 9

/-- The offset of the byte of `doff` in a TCP header. -/
def doffByte : ℕ := 12

/-- The length field `doff` of the TCP header at `header`, a high nibble. -/
def doff (buffer : ℕ → Byte) (header : ℕ) : ℕ :=
  (buffer (header + doffByte)).toNat / 16

/-! ## The functions of the source -/

def next (header headerLen : ℕ) : ℕ :=
  header + headerLen

/-- `has_space`: a comparison of a `size_t` with zero. -/
def hasSpace (bufferLen header headerLen : ℕ) : Bool :=
  decide (SizeT.sub bufferLen (SizeT.add header headerLen) ≥ 0)

def packetMapEther (len : ℕ) : Mapping where
  header := if sizeofEther ≤ len then some 0 else none
  reads := []

def packetMapIp (buffer : ℕ → Byte) (len : ℕ) : Mapping :=
  (packetMapEther len).andThen fun ethernet =>
    let ipheader := next ethernet sizeofEther
    { header :=
        if hasSpace len ipheader (ihl buffer ipheader * 4) then some ipheader
        else none
      reads := [ipheader] }

def packetMapUdp (buffer : ℕ → Byte) (len : ℕ) : Mapping :=
  (packetMapIp buffer len).andThen fun ip =>
    if buffer (ip + protocol) = ipprotoUdp then
      let udpheader := next ip (ihl buffer ip * 4)
      { header := if hasSpace len udpheader sizeofUdp then some udpheader
          else none
        reads := [ip + protocol, ip] }
    else { header := none, reads := [ip + protocol] }

def packetMapTcp (buffer : ℕ → Byte) (len : ℕ) : Mapping :=
  (packetMapIp buffer len).andThen fun ip =>
    if buffer (ip + protocol) = ipprotoTcp then
      let tcpheader := next ip (ihl buffer ip * 4)
      { header :=
          if hasSpace len tcpheader (doff buffer tcpheader * 4) then
            some tcpheader
          else none
        reads := [ip + protocol, ip, tcpheader + doffByte] }
    else { header := none, reads := [ip + protocol] }

def packetMapPayload (buffer : ℕ → Byte) (len : ℕ) : Mapping :=
  let udp := packetMapUdp buffer len
  let payload := udp.header.map fun udpheader => next udpheader sizeofUdp
  let tcp := packetMapTcp buffer len
  match tcp.header with
  | none => { header := payload, reads := udp.reads ++ tcp.reads }
  | some tcpheader =>
      { header := some (next tcpheader (doff buffer tcpheader * 4))
        reads := udp.reads ++ tcp.reads ++ [tcpheader + doffByte] }

/-! ## Staying inside the frame -/

/-- A mapping reads inside the frame, and the header it returns, of `size`
bytes, ends inside the frame. -/
structure Mapping.Inside (mapping : Mapping) (len : ℕ) (size : ℕ → ℕ) :
    Prop where
  reads_lt : ∀ offset, offset ∈ mapping.reads → offset < len
  header_le : ∀ header, mapping.header = some header →
    header + size header ≤ len

/-- The five functions stay inside the frame, and the length fields of the
headers they return cover the fixed part of the header. -/
structure StaysInside (buffer : ℕ → Byte) (len : ℕ) : Prop where
  ether : (packetMapEther len).Inside len fun _ => 14
  ip : (packetMapIp buffer len).Inside len fun header => ihl buffer header * 4
  ip_length : ∀ header, (packetMapIp buffer len).header = some header →
    5 ≤ ihl buffer header
  udp : (packetMapUdp buffer len).Inside len fun _ => 8
  tcp : (packetMapTcp buffer len).Inside len fun header =>
    doff buffer header * 4
  tcp_length : ∀ header, (packetMapTcp buffer len).header = some header →
    5 ≤ doff buffer header
  payload : (packetMapPayload buffer len).Inside len fun _ => 0

/-- The headers the frame announces are complete and inside the frame. -/
structure WellFormed (buffer : ℕ → Byte) (len : ℕ) : Prop where
  ip_length : 5 ≤ ihl buffer 14
  ip_le : 14 + ihl buffer 14 * 4 ≤ len
  udp_le : buffer 23 = ipprotoUdp → 14 + ihl buffer 14 * 4 + 8 ≤ len
  tcp_length : buffer 23 = ipprotoTcp →
    5 ≤ doff buffer (14 + ihl buffer 14 * 4)
  tcp_le : buffer 23 = ipprotoTcp →
    14 + ihl buffer 14 * 4 + doff buffer (14 + ihl buffer 14 * 4) * 4 ≤ len

section Mapped

variable {buffer : ℕ → Byte} {len : ℕ}

/-- No difference of unsigned numbers is negative. -/
@[simp]
theorem hasSpace_eq_true {header headerLen : ℕ} :
    hasSpace len header headerLen = true :=
  decide_eq_true (Nat.zero_le _)

theorem packetMapIp_of_short (hshort : len < 14) :
    packetMapIp buffer len = { header := none, reads := [] } := by
  simp [packetMapIp, packetMapEther, Mapping.andThen, sizeofEther,
    Nat.not_le.mpr hshort]

/-- Every frame that holds an Ethernet header is mapped further. -/
theorem packetMapIp_of_le (hle : 14 ≤ len) :
    packetMapIp buffer len = { header := some 14, reads := [14] } := by
  simp [packetMapIp, packetMapEther, Mapping.andThen, sizeofEther, hle, next]

theorem packetMapUdp_of_le (hle : 14 ≤ len) :
    packetMapUdp buffer len =
      if buffer 23 = ipprotoUdp then
        { header := some (14 + ihl buffer 14 * 4), reads := [14, 23, 14] }
      else { header := none, reads := [14, 23] } := by
  rw [packetMapUdp, packetMapIp_of_le hle]
  simp only [Mapping.andThen, protocol, next, hasSpace_eq_true, if_true]
  split
  · rfl
  · rfl

theorem packetMapTcp_of_le (hle : 14 ≤ len) :
    packetMapTcp buffer len =
      if buffer 23 = ipprotoTcp then
        { header := some (14 + ihl buffer 14 * 4)
          reads := [14, 23, 14, 14 + ihl buffer 14 * 4 + 12] }
      else { header := none, reads := [14, 23] } := by
  rw [packetMapTcp, packetMapIp_of_le hle]
  simp only [Mapping.andThen, protocol, doffByte, next, hasSpace_eq_true,
    if_true]
  split
  · rfl
  · rfl

/-- The payload behind a UDP header, a TCP header or none of them. -/
theorem packetMapPayload_of_le (hle : 14 ≤ len) :
    packetMapPayload buffer len =
      if buffer 23 = ipprotoUdp then
        { header := some (14 + ihl buffer 14 * 4 + 8)
          reads := [14, 23, 14, 14, 23] }
      else if buffer 23 = ipprotoTcp then
        { header := some (14 + ihl buffer 14 * 4 +
            doff buffer (14 + ihl buffer 14 * 4) * 4)
          reads := [14, 23, 14, 23, 14, 14 + ihl buffer 14 * 4 + 12,
            14 + ihl buffer 14 * 4 + 12] }
      else { header := none, reads := [14, 23, 14, 23] } := by
  rw [packetMapPayload, packetMapUdp_of_le hle, packetMapTcp_of_le hle]
  by_cases hudp : buffer 23 = ipprotoUdp
  · have htcp : buffer 23 ≠ ipprotoTcp := by
      rw [hudp]
      decide
    simp only [if_pos hudp, if_neg htcp]
    rfl
  · by_cases htcp : buffer 23 = ipprotoTcp
    · simp only [if_neg hudp, if_pos htcp]
      rfl
    · simp only [if_neg hudp, if_neg htcp]
      rfl

theorem Mapping.inside_none {reads : List ℕ} {size : ℕ → ℕ}
    (hreads : ∀ offset, offset ∈ reads → offset < len) :
    Mapping.Inside { header := none, reads := reads } len size where
  reads_lt := hreads
  header_le := fun _ hheader => absurd hheader (by simp)

theorem Mapping.inside_some {header : ℕ} {reads : List ℕ} {size : ℕ → ℕ}
    (hreads : ∀ offset, offset ∈ reads → offset < len)
    (hheader : header + size header ≤ len) :
    Mapping.Inside { header := some header, reads := reads } len size where
  reads_lt := hreads
  header_le := by
    intro other heq
    rw [← Option.some.inj heq]
    exact hheader

/-- Without an Ethernet header nothing is read and every pointer is null. -/
theorem staysInside_of_short (hshort : len < 14) : StaysInside buffer len := by
  have hnothing : ∀ offset, offset ∈ ([] : List ℕ) → offset < len :=
    fun _ hmem => absurd hmem List.not_mem_nil
  have hether : packetMapEther len = { header := none, reads := [] } := by
    rw [packetMapEther, sizeofEther, if_neg (Nat.not_le.mpr hshort)]
  have hip : packetMapIp buffer len = { header := none, reads := [] } :=
    packetMapIp_of_short hshort
  have hudp : packetMapUdp buffer len = { header := none, reads := [] } := by
    rw [packetMapUdp, hip]
    rfl
  have htcp : packetMapTcp buffer len = { header := none, reads := [] } := by
    rw [packetMapTcp, hip]
    rfl
  have hpayload : packetMapPayload buffer len =
      { header := none, reads := [] } := by
    rw [packetMapPayload, hudp, htcp]
    rfl
  constructor
  · rw [hether]
    exact Mapping.inside_none hnothing
  · rw [hip]
    exact Mapping.inside_none hnothing
  · simp [hip]
  · rw [hudp]
    exact Mapping.inside_none hnothing
  · rw [htcp]
    exact Mapping.inside_none hnothing
  · simp [htcp]
  · rw [hpayload]
    exact Mapping.inside_none hnothing

theorem wellFormed_of_staysInside (hle : 14 ≤ len)
    (hinside : StaysInside buffer len) : WellFormed buffer len := by
  have hip : (packetMapIp buffer len).header = some 14 := by
    rw [packetMapIp_of_le hle]
  have hudp : buffer 23 = ipprotoUdp → (packetMapUdp buffer len).header =
      some (14 + ihl buffer 14 * 4) := by
    intro hprotocol
    rw [packetMapUdp_of_le hle, if_pos hprotocol]
  have htcp : buffer 23 = ipprotoTcp → (packetMapTcp buffer len).header =
      some (14 + ihl buffer 14 * 4) := by
    intro hprotocol
    rw [packetMapTcp_of_le hle, if_pos hprotocol]
  exact
    { ip_length := hinside.ip_length 14 hip
      ip_le := hinside.ip.header_le 14 hip
      udp_le := fun hprotocol => hinside.udp.header_le _ (hudp hprotocol)
      tcp_length := fun hprotocol => hinside.tcp_length _ (htcp hprotocol)
      tcp_le := fun hprotocol => hinside.tcp.header_le _ (htcp hprotocol) }

theorem staysInside_of_wellFormed (hformed : WellFormed buffer len) :
    StaysInside buffer len := by
  have hlength := hformed.ip_length
  have hip := hformed.ip_le
  have hle : 14 ≤ len := by omega
  have hfixed : ∀ offset, offset ∈ [14, 23] → offset < len := by
    simp only [List.mem_cons, List.not_mem_nil, or_false, forall_eq_or_imp,
      forall_eq]
    omega
  constructor
  · rw [packetMapEther, sizeofEther, if_pos hle]
    refine Mapping.inside_some ?_ hle
    exact fun _ hmem => absurd hmem List.not_mem_nil
  · rw [packetMapIp_of_le hle]
    refine Mapping.inside_some ?_ hip
    simp only [List.mem_singleton, forall_eq]
    omega
  · intro header hheader
    rw [packetMapIp_of_le hle] at hheader
    rw [← Option.some.inj hheader]
    exact hlength
  · rw [packetMapUdp_of_le hle]
    split
    case isTrue hudp =>
      refine Mapping.inside_some ?_ (hformed.udp_le hudp)
      simp
      omega
    case isFalse => exact Mapping.inside_none hfixed
  · rw [packetMapTcp_of_le hle]
    split
    case isTrue htcp =>
      have hdoff := hformed.tcp_length htcp
      have htcp := hformed.tcp_le htcp
      refine Mapping.inside_some ?_ htcp
      simp
      omega
    case isFalse => exact Mapping.inside_none hfixed
  · intro header hheader
    rw [packetMapTcp_of_le hle] at hheader
    split at hheader
    case isTrue htcp =>
      rw [← Option.some.inj hheader]
      exact hformed.tcp_length htcp
    case isFalse => exact absurd hheader (by simp)
  · rw [packetMapPayload_of_le hle]
    split
    case isTrue hudp =>
      have hend := hformed.udp_le hudp
      refine Mapping.inside_some ?_ hend
      simp
      omega
    case isFalse =>
      split
      case isTrue htcp =>
        have hdoff := hformed.tcp_length htcp
        have hend := hformed.tcp_le htcp
        refine Mapping.inside_some ?_ hend
        simp
        omega
      case isFalse =>
        refine Mapping.inside_none ?_
        simp
        omega

end Mapped

/-- The functions stay inside a frame exactly where it is too short for an
Ethernet header, or all the headers it announces are complete and inside it. -/
theorem staysInside_iff (buffer : ℕ → Byte) (len : ℕ) :
    StaysInside buffer len ↔ len < 14 ∨ WellFormed buffer len := by
  constructor
  · intro hinside
    rcases Nat.lt_or_ge len 14 with hshort | hle
    · exact Or.inl hshort
    · exact Or.inr (wellFormed_of_staysInside hle hinside)
  · rintro (hshort | hformed)
    · exact staysInside_of_short hshort
    · exact staysInside_of_wellFormed hformed

/-- A frame that ends behind its Ethernet header is read past its end. -/
theorem not_staysInside_ether_only :
    ¬ StaysInside (fun _ => 0) 14 := by
  intro hinside
  exact absurd (hinside.ip.reads_lt 14 (by decide)) (by decide)

end Sensor.PacketExtract
