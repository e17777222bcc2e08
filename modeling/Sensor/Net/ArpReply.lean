import Sensor.Net.ArpUtil

/-!
# What `arp_is_reply` accepts

`arp_is_reply` tests six fields of a frame.  The four fields that say what the
addresses of the frame are, and that `arp_reply_create` fills, it does not look
at.
-/

namespace Sensor.ArpUtil

open Region ByteOrder

/-- The variables `out_ip4` and `out_hw` point to. -/
structure Outputs where
  ip4 : BitVec 32
  hw : HwAddress
  deriving DecidableEq

/-- `arp_is_reply`: its result and its outputs. -/
def arpIsReplyTo (buffer : ℕ → Byte) (length : ℕ) (current_hw : HwAddress)
    (out : Outputs) : Bool × Outputs :=
  if length < arpIp4Size then (false, out)
  else if HwAddress.load buffer etherShost = current_hw
      ∨ HwAddress.load buffer etherDhost ≠ current_hw
      ∨ load16 buffer etherType ≠ swap16 ethPArp
      ∨ load16 buffer arOp ≠ swap16 arpopReply
      ∨ HwAddress.load buffer arSha = current_hw
      ∨ HwAddress.load buffer arTha ≠ current_hw then (false, out)
  else
    (true, { ip4 := load32 buffer arSip, hw := HwAddress.load buffer arSha })

/-- The fields `arp_is_reply` tests. -/
structure Addressed (buffer : ℕ → Byte) (hw : HwAddress) : Prop where
  ether_type : load16 buffer etherType = swap16 ethPArp
  ar_op : load16 buffer arOp = swap16 arpopReply
  dhost : HwAddress.load buffer etherDhost = hw
  tha : HwAddress.load buffer arTha = hw
  shost : HwAddress.load buffer etherShost ≠ hw
  sha : HwAddress.load buffer arSha ≠ hw

/-- The fields that say that the addresses are those of Ethernet and IPv4. -/
structure EtherIp4 (buffer : ℕ → Byte) : Prop where
  ar_hrd : load16 buffer arHrd = swap16 arphrdEther
  ar_pro : load16 buffer arPro = swap16 ethPIp
  ar_hln : buffer arHln = 6
  ar_pln : buffer arPln = 4

/-- The bytes of a reply to this host. -/
structure IsReply (buffer : ℕ → Byte) (hw : HwAddress) : Prop where
  addressed : Addressed buffer hw
  ether_ip4 : EtherIp4 buffer

/-- `arp_is_reply` returns `true` exactly for a reply that is long enough, and
with `false` it writes neither output. -/
structure AcceptsReplies (buffer : ℕ → Byte) (length : ℕ) (hw : HwAddress)
    (out : Outputs) : Prop where
  accepts : (arpIsReplyTo buffer length hw out).1 = true ↔
    arpIp4Size ≤ length ∧ IsReply buffer hw
  keeps : (arpIsReplyTo buffer length hw out).1 = false →
    (arpIsReplyTo buffer length hw out).2 = out

variable {buffer : ℕ → Byte} {length : ℕ} {hw : HwAddress} {out : Outputs}

/-- The outputs hold what `arp_is_reply` found, or what they held before. -/
theorem arpIsReplyTo_eq :
    arpIsReplyTo buffer length hw out =
      match arpIsReply buffer length hw with
      | some (ip4, sha) => (true, ⟨ip4, sha⟩)
      | none => (false, out) := by
  rw [arpIsReplyTo, arpIsReply]
  split
  · rfl
  · split
    · rfl
    · rfl

theorem arpIsReplyTo_of_addressed (hlength : arpIp4Size ≤ length)
    (haddressed : Addressed buffer hw) :
    arpIsReplyTo buffer length hw out =
      (true, ⟨load32 buffer arSip, HwAddress.load buffer arSha⟩) := by
  rw [arpIsReplyTo, if_neg (Nat.not_lt.mpr hlength), if_neg]
  simp [haddressed.ether_type, haddressed.ar_op, haddressed.dhost,
    haddressed.tha, haddressed.shost, haddressed.sha]

theorem arpIsReplyTo_of_not
    (hnot : length < arpIp4Size ∨ ¬ Addressed buffer hw) :
    arpIsReplyTo buffer length hw out = (false, out) := by
  rw [arpIsReplyTo]
  split
  · rfl
  · rename_i hlong
    rw [if_pos]
    by_contra hpasses
    simp only [not_or, not_not] at hpasses
    obtain ⟨hshost, hdhost, htype, hop, hsha, htha⟩ := hpasses
    exact hnot.elim hlong fun hfails =>
      hfails ⟨htype, hop, hdhost, htha, hshost, hsha⟩

/-- The tests are those of the six fields. -/
theorem arpIsReplyTo_fst :
    (arpIsReplyTo buffer length hw out).1 = true ↔
      arpIp4Size ≤ length ∧ Addressed buffer hw := by
  by_cases hpasses : arpIp4Size ≤ length ∧ Addressed buffer hw
  · rw [arpIsReplyTo_of_addressed hpasses.1 hpasses.2]
    simp [hpasses]
  · have hnot : length < arpIp4Size ∨ ¬ Addressed buffer hw := by
      rwa [← not_le, ← not_and_or]
    rw [arpIsReplyTo_of_not hnot]
    simp [hpasses]

/-- `arp_is_reply` accepts exactly the replies where the frame is short, fails
one of its tests, or has addresses of Ethernet and IPv4. -/
theorem acceptsReplies_iff :
    AcceptsReplies buffer length hw out ↔
      length < arpIp4Size ∨ (Addressed buffer hw → EtherIp4 buffer) := by
  constructor
  · intro haccepts
    rcases Nat.lt_or_ge length arpIp4Size with hshort | hlong
    · exact Or.inl hshort
    · right
      intro haddressed
      have hreply := haccepts.accepts.mp
        (arpIsReplyTo_fst.mpr ⟨hlong, haddressed⟩)
      exact hreply.2.ether_ip4
  · intro hmeets
    constructor
    · rw [arpIsReplyTo_fst]
      constructor
      · rintro ⟨hlong, haddressed⟩
        have hip4 := (hmeets.resolve_left (Nat.not_lt.mpr hlong)) haddressed
        exact ⟨hlong, haddressed, hip4⟩
      · rintro ⟨hlong, hreply⟩
        exact ⟨hlong, hreply.addressed⟩
    · intro hfalse
      rw [arpIsReplyTo_of_not]
      by_contra hpasses
      rw [not_or, not_lt, not_not] at hpasses
      rw [arpIsReplyTo_fst.mpr hpasses] at hfalse
      cases hfalse

/-- A reply to the broadcast address but for its hardware type, 6. -/
def foreignReply : ℕ → Byte :=
  write (write (fun _ => 0) 0
    (Packet.reply 1 HwAddress.zero 2 HwAddress.etherBroadcast).bytes) arHrd
      [0, 6]

/-- `arp_is_reply` accepts it. -/
theorem not_acceptsReplies :
    ¬ ∀ (buffer : ℕ → Byte) (length : ℕ) (hw : HwAddress) (out : Outputs),
      AcceptsReplies buffer length hw out := by
  intro haccepts
  have htrue : (arpIsReplyTo foreignReply 42 HwAddress.etherBroadcast
      ⟨0, HwAddress.zero⟩).1 = true := by decide
  have hreply := (haccepts _ _ _ _).accepts.mp htrue
  exact absurd hreply.2.ether_ip4.ar_hrd (by decide)

/-! ## Replies and packets -/

/-- The bytes of a packet are followed through the fields nobody tests. -/
theorem etherIp4_of_read {packet : Packet}
    (hframe : read buffer 0 arpIp4Size = packet.bytes) : EtherIp4 buffer := by
  have hdhost := packet.dhost.length_octets
  have hshost := packet.shost.length_octets
  simp only [ethAlen] at hdhost hshost
  have hbyte : ∀ {place : ℕ} {byte : Byte}, place + 1 ≤ arpIp4Size →
      (packet.bytes.drop place).take 1 = [byte] → buffer place = byte := by
    intro place byte hplace hfield
    have hread : [buffer place] = [byte] :=
      (read_field hframe hplace).trans hfield
    exact (List.cons.inj hread).1
  refine ⟨load16_of_read ((read_field hframe (by decide)).trans ?_),
    load16_of_read ((read_field hframe (by decide)).trans ?_),
    hbyte (by decide) ?_, hbyte (by decide) ?_⟩
  all_goals
    simp [Packet.bytes, Packet.head, List.drop_append, arHrd, arPro, arHln,
      arPln, header, HwAddress.drop_octets, bytes16_arphrdEther,
      bytes16_ethPIp, hdhost, hshost]

/-- A frame is a reply exactly if it starts with the bytes of a packet that is
one. -/
theorem isReply_iff_exists_packet :
    IsReply buffer hw ↔ ∃ packet : Packet, packet.RepliesTo hw ∧
      read buffer 0 arpIp4Size = packet.bytes := by
  constructor
  · rintro ⟨⟨htype, hop, hdhost, htha, hshost, hsha⟩, hhrd, hpro, hhln, hpln⟩
    refine ⟨⟨hw, HwAddress.load buffer etherShost, arpopReply,
      HwAddress.load buffer arSha, load32 buffer arSip, hw,
      load32 buffer arTip⟩, ⟨rfl, hshost, hsha, rfl, rfl⟩, ?_⟩
    have hfields : read buffer 0 arpIp4Size =
        read buffer etherDhost 6 ++ read buffer etherShost 6 ++
          read buffer etherType 2 ++ read buffer arHrd 2 ++
          read buffer arPro 2 ++ [buffer arHln] ++ [buffer arPln] ++
          read buffer arOp 2 ++ read buffer arSha 6 ++ read buffer arSip 4 ++
          read buffer arTha 6 ++ read buffer arTip 4 := rfl
    have hdhostBytes : read buffer etherDhost 6 = hw.octets :=
      congrArg HwAddress.octets hdhost
    have hthaBytes : read buffer arTha 6 = hw.octets :=
      congrArg HwAddress.octets htha
    rw [hfields, hdhostBytes, hthaBytes, read_of_load16 htype,
      read_of_load16 hhrd, read_of_load16 hpro, read_of_load16 hop, hhln, hpln,
      read_of_load32 rfl, read_of_load32 rfl, bytes16_ethPArp,
      bytes16_arphrdEther, bytes16_ethPIp]
    rfl
  · rintro ⟨packet, ⟨hop, hshost, hsha, hdhost, htha⟩, hframe⟩
    obtain ⟨hdhost', hshost', htype', hop', hsha', -, htha'⟩ :=
      loads_of_read hframe
    refine ⟨⟨htype', ?_, hdhost'.trans hdhost, htha'.trans htha, ?_, ?_⟩,
      etherIp4_of_read hframe⟩
    · rw [hop', hop]
    · rwa [hshost']
    · rwa [hsha']

end Sensor.ArpUtil
