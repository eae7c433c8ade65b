import XKern.IpChecksum
import XKern.NetLayouts

namespace XKern.Net

open FaultTriple OnesComplement PackedBytes List

/-!
# Sending and receiving of IPv4 packets

A packet of `ipv4_send` passes the checks of `ipv4_rx` on the host with its destination
address, and the handler of its protocol is called with the payload.  `ip_checksum`
stored in a field of zeros makes up for the other words of any buffer.
-/

/-! ## The header -/

/-- The header of `hdr_fill` with a checksum. -/
def filledHeader (srcHost dstHost : U32) (proto : U8) (plen checksum : U16) : Ipv4Hdr where
  verIhl := 0x45
  tos := 0
  totalLen := netHtons (20 + plen)
  id := 0
  flagsFrag := netHtons 0x4000
  ttl := 64
  proto := proto
  checksum := checksum
  src := netHtonl srcHost
  dst := netHtonl dstHost

theorem hdrFill_eq (srcHost dstHost : U32) (proto : U8) (plen : U16) :
    hdrFill srcHost dstHost proto plen = filledHeader srcHost dstHost proto plen
      (ipChecksum (filledHeader srcHost dstHost proto plen 0).bytes) :=
  rfl

def frontWords (h : Ipv4Hdr) : List U8 :=
  [h.verIhl] ++ ([h.tos] ++ (toBytes 2 h.totalLen ++ (toBytes 2 h.id ++ (toBytes 2 h.flagsFrag ++
    ([h.ttl] ++ [h.proto])))))

theorem Ipv4Hdr.bytes_eq (h : Ipv4Hdr) :
    h.bytes = frontWords h ++ (toBytes 2 h.checksum ++ (toBytes 4 h.src ++ toBytes 4 h.dst)) := by
  simp only [Ipv4Hdr.bytes, frontWords, append_assoc]

theorem length_frontWords (h : Ipv4Hdr) : (frontWords h).length = 10 := by
  simp [frontWords]

theorem ipChecksum_hdrFill (srcHost dstHost : U32) (proto : U8) (plen : U16) :
    ipChecksum (hdrFill srcHost dstHost proto plen).bytes = 0 := by
  let blank := filledHeader srcHost dstHost proto plen 0
  have isBlank : blank.bytes = frontWords blank ++
      ([0, 0] ++ (toBytes 4 blank.src ++ toBytes 4 blank.dst)) := by
    have noChecksum : toBytes 2 (0 : U16) = [0, 0] := by decide
    rw [blank.bytes_eq, ← noChecksum]
    rfl
  have short : blank.bytes.length ≤ 65535 := by
    rw [Ipv4Hdr.length_bytes]
    decide
  rw [isBlank] at short
  have stored := ipChecksum_stored _ _ (by rw [length_frontWords]) short
  rw [← isBlank] at stored
  rw [hdrFill_eq, Ipv4Hdr.bytes_eq]
  exact stored

/-! ## Receiving -/

def handler (proto : U8) (payload : List U8) (plen : Nat) (src : U32) : NetM Unit :=
  if proto = ipProtoIcmp then
    icmpRx payload plen src
  else if proto = ipProtoUdp then
    udpRx payload plen src
  else
    pure ()

theorem toNat_totalLen {plen : Nat} (small : plen ≤ 1480) :
    ((20 : U16) + .ofNat 16 plen).toNat = 20 + plen := by
  rw [BitVec.toNat_add, BitVec.toNat_ofNat, show (20 : U16).toNat = 20 from rfl]
  omega

variable {dstIp : U32} {payload frame : List U8}

theorem ipv4Rx_packet {host : Stack} (isHost : host.ip = dstIp) (srcIp : U32) (proto : U8)
    (small : payload.length ≤ 1480) :
    ipv4Rx (ipv4Packet srcIp dstIp proto payload payload.length) (20 + payload.length) host =
      handler proto payload payload.length srcIp host := by
  let h := hdrFill srcIp dstIp proto (.ofNat 16 payload.length)
  have isPacket : ipv4Packet srcIp dstIp proto payload payload.length = h.bytes ++ payload := by
    rw [ipv4Packet, take_length]
  have isRead : checked .frame (read (h.bytes ++ payload) 0 20) =
      (pure h.bytes : NetM (List U8)) := by
    rw [checked_read (by rw [length_append, Ipv4Hdr.length_bytes]; omega),
      part_front (Ipv4Hdr.length_bytes h)]
  have total : (netHtons h.totalLen).toNat = 20 + payload.length := by
    change (netHtons (netHtons _)).toNat = _
    rw [netHtons_netHtons, toNat_totalLen small]
  have isDst : netHtonl h.dst = host.ip := by
    change netHtonl (netHtonl dstIp) = _
    rw [netHtonl_netHtonl, isHost]
  have isSrc : netHtonl h.src = srcIp := netHtonl_netHtonl srcIp
  have isPayload : (h.bytes ++ payload).drop 20 = payload := drop_left' (Ipv4Hdr.length_bytes h)
  have version : ¬ (h.verIhl >>> 4 ≠ 4 ∨ h.verIhl &&& 0xf ≠ 5) := by
    change ¬ ((0x45 : U8) >>> 4 ≠ 4 ∨ (0x45 : U8) &&& 0xf ≠ 5)
    decide
  rw [isPacket, ipv4Rx, if_neg (by omega), isRead, pure_bind]
  change (if (Ipv4Hdr.ofBytes h.bytes).verIhl >>> 4 ≠ 4 ∨ _ then _ else _ : NetM Unit) host = _
  rw [Ipv4Hdr.ofBytes_bytes, if_neg version, total, if_neg (by omega)]
  change (if netHtonl h.dst ≠ host.ip ∧ _ then _ else _ : NetM Unit) host = _
  rw [isDst, if_neg (by simp), ipChecksum_hdrFill, if_neg (by simp), isPayload, isSrc,
    Nat.add_sub_cancel_left]
  rfl

theorem etherRx_ipv4 (host : Stack) {h : EthHdr} (isIpv4 : netHtons h.type = ethertypeIpv4)
    {packet : List U8} (nonempty : 0 < packet.length) (stale : List U8) :
    etherRx (h.bytes ++ packet ++ stale) (h.bytes ++ packet).length host =
      ipv4Rx packet packet.length host := by
  have length : (h.bytes ++ packet).length = 14 + packet.length := by
    rw [length_append, EthHdr.length_bytes]
  have isRead : checked .frame (read (h.bytes ++ packet ++ stale) 0 14) =
      (pure h.bytes : NetM (List U8)) := by
    rw [checked_read (by rw [length_append, length]; omega), append_assoc,
      part_front (EthHdr.length_bytes h)]
  have isPacket : ((h.bytes ++ packet ++ stale).take (14 + packet.length)).drop 14 = packet := by
    rw [take_left' length, drop_left' (EthHdr.length_bytes h)]
  have notArp : ¬ netHtons h.type = ethertypeArp := by
    rw [isIpv4]
    decide
  rw [etherRx, length, if_neg (by omega), isRead, pure_bind, EthHdr.ofBytes_bytes, if_neg notArp,
    if_pos isIpv4, isPacket, Nat.add_sub_cancel_left]

def frameType (frame : List U8) : U16 :=
  netHtons (EthHdr.ofBytes (part frame 0 14)).type

theorem frameType_append (h : EthHdr) (rest : List U8) :
    frameType (h.bytes ++ rest) = netHtons h.type := by
  rw [frameType, part_front (EthHdr.length_bytes h), EthHdr.ofBytes_bytes]

/-- The program hands this frame to the device. -/
def Emits {Value : Type} (stack : Stack) (program : NetM Value) (frame : List U8) : Prop :=
  ∃ result after sent, program stack = .ok result after ∧
    after.io.handed = stack.io.handed ++ sent ∧ frame ∈ sent

theorem mem_of_emits {Value : Type} {stack : Stack} {program : NetM Value}
    {frames : List (List U8)} (sends : Sends stack program frames)
    (emits : Emits stack program frame) :
    frame ∈ frames := by
  obtain ⟨result, io, ran, handed⟩ := sends
  obtain ⟨other, after, sent, alsoRan, alsoHanded, member⟩ := emits
  rw [ran] at alsoRan
  cases alsoRan
  have same := handed.symm.trans alsoHanded
  rwa [append_cancel_left same]

theorem exists_ipv4Sent {sender : Stack} {proto : U8} (small : payload.length ≤ 1480)
    (emits : Emits sender (ipv4Send dstIp proto payload payload.length) frame)
    (isIpv4 : frameType frame = ethertypeIpv4) :
    ∃ mac, frame = ipv4Sent sender mac dstIp proto payload payload.length := by
  have member := mem_of_emits
    (sends_ipv4Send sender dstIp proto payload payload.length (le_refl _)) emits
  rw [if_neg (not_lt.mpr small)] at member
  split at member
  · exact ⟨_, mem_singleton.mp member⟩
  · split at member
    · -- The request of `arp_request` has another type.
      rw [mem_singleton.mp member, frameType_append] at isIpv4
      change netHtons (netHtons ethertypeArp) = _ at isIpv4
      rw [netHtons_netHtons] at isIpv4
      cases isIpv4
    · exact ⟨_, mem_singleton.mp member⟩

/-- Storing `ip_checksum` of a buffer into one of its words that is zero makes the
checksum 0. -/
theorem ipChecksum_overwrite {bytes : List U8} {offset : Nat} (short : bytes.length ≤ 65535)
    (even : offset % 2 = 0) (inside : offset + 2 ≤ bytes.length)
    (isZero : part bytes offset 2 = [0, 0]) :
    ipChecksum (overwrite bytes offset (toBytes 2 (ipChecksum bytes))) = 0 := by
  have cut : bytes = bytes.take offset ++ ([0, 0] ++ bytes.drop (offset + 2)) := by
    rw [← isZero, part, ← drop_drop, take_append_drop, take_append_drop]
  have lengthFront : (bytes.take offset).length = offset := length_take_of_le (by omega)
  have stored := ipChecksum_stored (bytes.take offset) (bytes.drop (offset + 2))
    (by rw [lengthFront]; exact even) (by rw [← cut]; exact short)
  rw [← cut] at stored
  rw [overwrite, length_toBytes]
  exact stored

/-- `ether_rx` on an IPv4 frame of `ipv4_send`, on the host with the destination
address. -/
theorem etherRx_of_emits {sender host : Stack} {proto : U8} (small : payload.length ≤ 1480)
    (isHost : host.ip = dstIp)
    (emits : Emits sender (ipv4Send dstIp proto payload payload.length) frame)
    (isIpv4 : frameType frame = ethertypeIpv4) (stale : List U8) :
    etherRx (frame ++ stale) frame.length host =
      handler proto payload payload.length sender.ip host := by
  obtain ⟨mac, rfl⟩ := exists_ipv4Sent small emits isIpv4
  have isType : netHtons (sentHeader sender mac ethertypeIpv4).type = ethertypeIpv4 :=
    netHtons_netHtons _
  have length : (ipv4Packet sender.ip dstIp proto payload payload.length).length =
      20 + payload.length := by
    rw [ipv4Packet, length_append, Ipv4Hdr.length_bytes, take_length]
  rw [ipv4Sent, etherRx_ipv4 host isType (by omega), length,
    ipv4Rx_packet isHost sender.ip proto small]

/-- A frame of `ipv4_send` that is delivered to the host with the destination address
reaches the handler of its protocol with the payload, and a stored checksum makes up for
its buffer. -/
theorem ipv4_send_receive_agree :
    (∀ (sender host : Stack) (dstIp : U32) (proto : U8) (payload frame stale : List U8),
      proto = ipProtoIcmp ∨ proto = ipProtoUdp →
      payload.length ≤ 1480 →
      dstIp ≠ 0xffffffff →
      host.ip = dstIp →
      Emits sender (ipv4Send dstIp proto payload payload.length) frame →
      frameType frame = ethertypeIpv4 →
      etherRx (frame ++ stale) frame.length host =
        (if proto = ipProtoIcmp then icmpRx payload payload.length sender.ip
         else udpRx payload payload.length sender.ip) host) ∧
    (∀ (bytes : List U8) (offset : Nat),
      bytes.length ≤ 65535 →
      offset % 2 = 0 →
      offset + 2 ≤ bytes.length →
      part bytes offset 2 = [0, 0] →
      ipChecksum (overwrite bytes offset (toBytes 2 (ipChecksum bytes))) = 0) := by
  constructor
  · intro sender host dstIp proto payload frame stale isProto small _ isHost emits isIpv4
    rw [etherRx_of_emits small isHost emits isIpv4, handler]
    rcases isProto with rfl | rfl
    · rfl
    · rfl
  · intro bytes offset short even inside isZero
    exact ipChecksum_overwrite short even inside isZero

def pingSender : Stack :=
  { bootStack with
    ip := 0x0a00020f
    cache := fun i =>
      if i = 0 then
        { ip := netHtonl 0x0a000202, mac := fun _ => 0x52, stamp := 0, used := true }
      else
        bootStack.cache i }

def pingHost : Stack :=
  { bootStack with ip := 0x0a000202 }

def pingPayload : List U8 :=
  [8, 0, 0xf7, 0xff, 0, 0, 0, 0]

/-- An echo request, from one host to another. -/
theorem ping_delivered :
    (∃ frame, Emits pingSender (ipv4Send 0x0a000202 ipProtoIcmp pingPayload pingPayload.length)
        frame ∧
      etherRx (frame ++ []) frame.length pingHost =
        icmpRx pingPayload pingPayload.length pingSender.ip pingHost) ∧
    ipChecksum (overwrite [0x12, 0, 0, 0, 7] 2 (toBytes 2 (ipChecksum [0x12, 0, 0, 0, 7]))) =
      0 := by
  constructor
  · obtain ⟨result, io, ran, handed⟩ := sends_ipv4Send pingSender 0x0a000202 ipProtoIcmp
      pingPayload pingPayload.length (le_refl _)
    have isFrame : arpLookup pingSender.cache (nextHop pingSender 0x0a000202) =
        some fun _ => 0x52 := by
      decide
    rw [if_neg (by decide), if_neg (by decide), isFrame] at handed
    have emits : Emits pingSender (ipv4Send 0x0a000202 ipProtoIcmp pingPayload pingPayload.length)
        (ipv4Sent pingSender (fun _ => 0x52) 0x0a000202 ipProtoIcmp pingPayload
          pingPayload.length) :=
      ⟨result, _, _, ran, handed, mem_singleton_self _⟩
    have isIpv4 : frameType (ipv4Sent pingSender (fun _ => 0x52) 0x0a000202 ipProtoIcmp
        pingPayload pingPayload.length) = ethertypeIpv4 := by
      rw [ipv4Sent, frameType_append]
      exact netHtons_netHtons _
    exact ⟨_, emits, ipv4_send_receive_agree.1 pingSender pingHost 0x0a000202 ipProtoIcmp
      pingPayload _ [] (.inl rfl) (by decide) (by decide) rfl emits isIpv4⟩
  · exact ipv4_send_receive_agree.2 [0x12, 0, 0, 0, 7] 2 (by decide) rfl (by decide) rfl

end XKern.Net
