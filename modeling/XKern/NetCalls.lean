import XKern.FaultTriple
import XKern.NetStack

namespace XKern.Net

open FaultTriple Libkern PackedBytes List

/-!
# What the sending calls do

A call that sends changes nothing of the stack but its exchange with the surroundings,
and it hands frames to the driver.  One lemma for each call says which.
-/

variable {Value Result : Type}

/-- The call returns, changes nothing but `io` and hands over these frames. -/
def Sends (stack : Stack) (program : NetM Value) (frames : List (List U8)) : Prop :=
  ∃ result io, program stack = .ok result { stack with io } ∧
    io.handed = stack.io.handed ++ frames

/-! ## Rules -/

section Rules

variable {stack : Stack} {program : NetM Value} {next : Value → NetM Result}
  {frames later : List (List U8)}

theorem sends_pure (stack : Stack) (value : Value) : Sends stack (pure value : NetM Value) [] :=
  ⟨value, stack.io, rfl, (append_nil _).symm⟩

theorem Sends.bind (first : Sends stack program frames)
    (second : ∀ value io, Sends { stack with io } (next value) later) :
    Sends stack (program >>= next) (frames ++ later) := by
  obtain ⟨value, io, ran, handed⟩ := first
  obtain ⟨result, final, ranLater, handedLater⟩ := second value io
  refine ⟨result, final, ?_, ?_⟩
  · rw [bind_of_ok ran, ranLater]
  · rw [handedLater, handed, append_assoc]

theorem Sends.andThen (first : Sends stack program [])
    (second : ∀ value io, Sends { stack with io } (next value) later) :
    Sends stack (program >>= next) later :=
  first.bind second

theorem Sends.before (first : Sends stack program frames)
    (second : ∀ value io, Sends { stack with io } (next value) []) :
    Sends stack (program >>= next) frames := by
  have both := first.bind second
  rwa [append_nil] at both

theorem get_bind (next : Stack → NetM Result) (stack : Stack) :
    (get >>= next) stack = next stack stack :=
  rfl

theorem sends_get {next : Stack → NetM Result} (sends : Sends stack (next stack) frames) :
    Sends stack (get >>= next) frames :=
  sends

theorem checked_of_some {fault : NetFault} {option : Option Value} {value : Value}
    (isSome : option = some value) :
    checked fault option = pure value := by
  rw [isSome]
  rfl

end Rules

/-! ## Buffers -/

section Buffers

variable {fault : NetFault} {buffer values : List U8} {offset count : Nat}

theorem checked_read (inside : offset + count ≤ buffer.length) :
    checked fault (read buffer offset count) = pure (part buffer offset count) :=
  checked_of_some (read_of_le inside)

theorem checked_write (inside : offset + values.length ≤ buffer.length) :
    checked fault (write buffer offset values) = pure (overwrite buffer offset values) :=
  checked_of_some (write_of_le inside)

theorem exists_write (fault : NetFault) (buffer : List U8) (offset : Nat) (values : List U8)
    (inside : offset + values.length ≤ buffer.length) :
    ∃ after : List U8, checked fault (write buffer offset values) = pure after ∧
      after.length = buffer.length :=
  ⟨_, checked_write inside, length_overwrite inside⟩

end Buffers

/-! ## Messages -/

theorem sends_input (stack : Stack) : Sends stack input [] :=
  ⟨_, _, rfl, (append_nil _).symm⟩

theorem sends_klogLvl (stack : Stack) (prio : Int) (driver : String) {fmt : String}
    {args : List VaSlot} (isMatch : Matches (ascii fmt) args) :
    Sends stack (klogLvl prio driver fmt args) [] := by
  rw [klogLvl]
  refine (sends_input stack).andThen ?_
  intro ms io
  obtain ⟨line, isLine⟩ := exists_klogVlvl prio (terminated_literal driver) isMatch (ms.setWidth 32)
  rw [checked_of_some isLine, pure_bind]
  exact ⟨(), _, rfl, (append_nil _).symm⟩

theorem sends_klogLvl_plain (stack : Stack) (prio : Int) (driver : String) {fmt : String}
    (noArguments : argumentKinds 64 (ascii fmt) = some []) :
    Sends stack (klogLvl prio driver fmt []) [] :=
  sends_klogLvl stack prio driver (matches_of_kinds noArguments .nil)

theorem length_decimalByte (v : U8) : (decimalByte v).length ≤ 3 := by
  rw [decimalByte, length_append, length_append, length_singleton]
  split <;> split <;> simp

theorem length_ipv4Text (ip : U32) : (ipv4Text ip).length ≤ 16 := by
  have first := length_decimalByte ((ip >>> 24).setWidth 8)
  have second := length_decimalByte ((ip >>> 16).setWidth 8)
  have third := length_decimalByte ((ip >>> 8).setWidth 8)
  have fourth := length_decimalByte (ip.setWidth 8)
  simp only [ipv4Text, dotted, length_append, length_cons, length_nil]
  omega

theorem terminated_ipv4Text (ip : U32) : 0 ∈ ipv4Text ip := by
  simp [ipv4Text, dotted]

/-- The text of an address is terminated. -/
theorem exists_netIpv4Str (ip : U32) : ∃ text, netIpv4Str ip = pure text ∧ 0 ∈ text := by
  have inside : 0 + (ipv4Text ip).length ≤ (replicate 16 (0 : U8)).length := by
    rw [length_replicate, zero_add]
    exact length_ipv4Text ip
  refine ⟨_, checked_write inside, ?_⟩
  exact mem_append_right _ (mem_append_left _ (terminated_ipv4Text ip))

/-! ## The driver -/

theorem sends_txPage (stack : Stack) : Sends stack txPage [] := by
  rw [txPage]
  apply sends_get
  cases stack.io.nic.txPage with
  | some page => exact sends_pure _ _
  | none =>
    refine (sends_input stack).andThen ?_
    intro phys io
    split
    · exact sends_pure _ _
    · exact sends_pure _ _

variable {len : Nat} {payload : List U8}

/-- The driver takes a frame and hands over none. -/
theorem sends_e1000Send (stack : Stack) {frame : List U8} (inside : len ≤ frame.length) :
    Sends stack (e1000Send frame len) [] := by
  rw [e1000Send]
  apply sends_get
  split
  · exact sends_pure _ _
  · rename_i accepted
    refine (sends_input stack).andThen ?_
    intro tdh io
    dsimp only
    split
    · exact sends_pure _ _
    · refine (sends_txPage _).andThen ?_
      intro page io
      cases page with
      | none => exact sends_pure _ _
      | some page =>
        have small : ¬ 4096 < len := by omega
        have isRead : 0 + len ≤ frame.length := by omega
        dsimp only
        rw [checked_read isRead, pure_bind, if_neg small]
        refine Sends.andThen ⟨(), _, rfl, (append_nil _).symm⟩ ?_
        intro _ io
        refine (sends_input _).andThen ?_
        intro done io
        split
        · refine Sends.andThen (sends_klogLvl_plain _ _ _ (by decide)) ?_
          intro _ io
          exact sends_pure _ _
        · exact sends_pure _ _

/-- `netdev_send` hands over the bytes up to `len`. -/
theorem sends_netdevSend (stack : Stack) {frame : List U8} (inside : len ≤ frame.length) :
    Sends stack (netdevSend frame len) [frame.take len] := by
  rw [netdevSend]
  refine Sends.before ⟨(), _, rfl, rfl⟩ ?_
  intro _ io
  apply sends_get
  split
  · exact sends_e1000Send _ inside
  · exact sends_pure _ _

@[simp]
theorem EthHdr.length_bytes (h : EthHdr) : h.bytes.length = 14 := by
  simp [EthHdr.bytes]

/-- The header that `ether_send` stores. -/
def sentHeader (stack : Stack) (dst : Mac) (ethertype : U16) : EthHdr where
  dst := dst
  src := stack.mac
  type := netHtons ethertype

/-- `ether_send` puts its header over the first 14 bytes behind the pointer. -/
theorem sends_etherSend (stack : Stack) (dst : Mac) (ethertype : U16) (frame : List U8) (plen : Nat)
    (inside : plen + 14 ≤ frame.length) :
    Sends stack (etherSend dst ethertype frame plen)
      [(sentHeader stack dst ethertype).bytes ++ part frame 14 plen] := by
  rw [etherSend]
  apply sends_get
  have room : 0 + (sentHeader stack dst ethertype).bytes.length ≤ frame.length := by
    rw [EthHdr.length_bytes]
    omega
  have isSent : (overwrite frame 0 (sentHeader stack dst ethertype).bytes).take (plen + 14) =
      (sentHeader stack dst ethertype).bytes ++ part frame 14 plen := by
    rw [overwrite, take_zero, nil_append, zero_add, take_append,
      EthHdr.length_bytes, take_of_length_le (by rw [EthHdr.length_bytes]; omega),
      Nat.add_sub_cancel, part]
  change Sends stack (checked .buffer (write frame 0 (sentHeader stack dst ethertype).bytes) >>=
    fun frame => netdevSend frame (plen + 14)) _
  rw [checked_write room, pure_bind, ← isSent]
  apply sends_netdevSend
  rw [length_overwrite room]
  exact inside

/-! ## ARP requests -/

@[simp]
theorem ArpPkt.length_bytes (a : ArpPkt) : a.bytes.length = 28 := by
  simp [ArpPkt.bytes]

/-- The packet of `arp_request`. -/
def requestPkt (stack : Stack) (ipHost : U32) : ArpPkt where
  htype := netHtons 1
  ptype := netHtons ethertypeIpv4
  hlen := 6
  plen := 4
  op := netHtons 1
  sha := stack.mac
  spa := netHtonl stack.ip
  tha := fun _ => 0
  tpa := netHtonl ipHost

/-- `arp_request` broadcasts one packet. -/
theorem sends_arpRequest (stack : Stack) (ipHost : U32) : Sends stack (arpRequest ipHost)
      [(sentHeader stack netBcastMac ethertypeArp).bytes ++ (requestPkt stack ipHost).bytes] := by
  let buffer : List U8 := replicate 1518 0
  have length : buffer.length = 1518 := length_replicate
  have room : 14 + (requestPkt stack ipHost).bytes.length ≤ buffer.length := by
    rw [ArpPkt.length_bytes]
    omega
  have isPkt : part (overwrite buffer 14 (requestPkt stack ipHost).bytes) 14 28 =
      (requestPkt stack ipHost).bytes := by
    have stored := part_overwrite (show 14 ≤ buffer.length by omega) (requestPkt stack ipHost).bytes
    rwa [ArpPkt.length_bytes] at stored
  rw [arpRequest]
  apply sends_get
  change Sends stack (checked .buffer (write buffer 14 (requestPkt stack ipHost).bytes) >>=
    fun frame => etherSend netBcastMac ethertypeArp frame 28) _
  rw [checked_write room, pure_bind]
  have sends := sends_etherSend stack netBcastMac ethertypeArp
    (overwrite buffer 14 (requestPkt stack ipHost).bytes) 28
    (by rw [length_overwrite room]; omega)
  rwa [isPkt] at sends

/-! ## IPv4 -/

@[simp]
theorem Ipv4Hdr.length_bytes (h : Ipv4Hdr) : h.bytes.length = 20 := by
  simp [Ipv4Hdr.bytes]

/-- The bytes behind the Ethernet header of a frame of `ipv4_send`. -/
def ipv4Packet (srcIp dstIp : U32) (proto : U8) (payload : List U8)
    (plen : Nat) : List U8 :=
  (hdrFill srcIp dstIp proto (.ofNat 16 plen)).bytes ++ payload.take plen

/-- The frame that is built holds the packet. -/
theorem exists_ipv4Frame (srcIp dstIp : U32) (proto : U8) {plen : Nat} (small : plen ≤ 1480)
    (inside : plen ≤ payload.length) :
    ∃ frame, ipv4Frame srcIp dstIp proto payload plen = pure frame ∧ frame.length = 1518 ∧
      part frame 14 (20 + plen) = ipv4Packet srcIp dstIp proto payload plen := by
  let h := hdrFill srcIp dstIp proto (.ofNat 16 plen)
  let buffer : List U8 := replicate 1518 0
  have length : buffer.length = 1518 := length_replicate
  have lengthPayload : (payload.take plen).length = plen := length_take_of_le inside
  have roomHeader : 14 + h.bytes.length ≤ buffer.length := by
    rw [Ipv4Hdr.length_bytes]
    omega
  have isBody : part payload 0 plen = payload.take plen := by
    rw [part, drop_zero]
  have roomBody : 34 + (payload.take plen).length ≤ (overwrite buffer 14 h.bytes).length := by
    rw [length_overwrite roomHeader]
    omega
  have joined : overwrite (overwrite buffer 14 h.bytes) 34 (payload.take plen) =
      overwrite buffer 14 (ipv4Packet srcIp dstIp proto payload plen) := by
    have behind : 34 = 14 + h.bytes.length := by rw [Ipv4Hdr.length_bytes]
    rw [behind, overwrite_adjoin (by omega)]
    rfl
  have lengthPacket : (ipv4Packet srcIp dstIp proto payload plen).length = 20 + plen := by
    rw [ipv4Packet, length_append, Ipv4Hdr.length_bytes, lengthPayload]
  refine ⟨overwrite buffer 14 (ipv4Packet srcIp dstIp proto payload plen), ?_, ?_, ?_⟩
  · rw [ipv4Frame, checked_write roomHeader, pure_bind, checked_read (by omega), pure_bind, isBody,
      checked_write roomBody, joined]
  · rw [length_overwrite (by omega), length]
  · rw [← lengthPacket]
    exact part_overwrite (by omega) _

/-- The frame of `ipv4_send` to a hardware address. -/
def ipv4Sent (stack : Stack) (mac : Mac) (dstIp : U32) (proto : U8) (payload : List U8)
    (plen : Nat) : List U8 :=
  (sentHeader stack mac ethertypeIpv4).bytes ++ ipv4Packet stack.ip dstIp proto payload plen

/-- The packet is sent in one frame. -/
theorem sends_ipv4Frame (stack : Stack) (mac : Mac) (dstIp : U32) (proto : U8) {plen : Nat}
    (small : plen ≤ 1480) (inside : plen ≤ payload.length) :
    Sends stack (ipv4Frame stack.ip dstIp proto payload plen >>= fun frame =>
        etherSend mac ethertypeIpv4 frame (20 + plen))
      [ipv4Sent stack mac dstIp proto payload plen] := by
  obtain ⟨frame, isFrame, length, isPacket⟩ := exists_ipv4Frame stack.ip dstIp proto small inside
  rw [isFrame, pure_bind, ipv4Sent, ← isPacket]
  exact sends_etherSend stack mac ethertypeIpv4 frame (20 + plen) (by omega)

/-- What `ipv4_send` hands over: nothing, an ARP request, or the packet for the hardware
address that it knows. -/
theorem sends_ipv4Send (stack : Stack) (dstIp : U32) (proto : U8) (payload : List U8) (plen : Nat)
    (inside : plen ≤ payload.length) :
    Sends stack (ipv4Send dstIp proto payload plen) (if 1480 < plen then []
       else if dstIp = 0xffffffff then [ipv4Sent stack netBcastMac dstIp proto payload plen]
       else
         match arpLookup stack.cache (nextHop stack dstIp) with
         | none =>
           [(sentHeader stack netBcastMac ethertypeArp).bytes ++
             (requestPkt stack (nextHop stack dstIp)).bytes]
         | some mac => [ipv4Sent stack mac dstIp proto payload plen]) := by
  rw [ipv4Send]
  by_cases large : 1480 < plen
  · rw [if_pos large, if_pos large]
    exact sends_pure _ _
  · rw [if_neg large, if_neg large]
    apply sends_get
    have small : plen ≤ 1480 := Nat.le_of_not_lt large
    by_cases isBroadcast : dstIp = 0xffffffff
    · rw [if_pos isBroadcast, if_pos isBroadcast]
      exact sends_ipv4Frame stack netBcastMac dstIp proto small inside
    · rw [if_neg isBroadcast, if_neg isBroadcast]
      cases arpLookup stack.cache (nextHop stack dstIp) with
      | some mac => exact sends_ipv4Frame stack mac dstIp proto small inside
      | none =>
        refine (sends_arpRequest stack _).before ?_
        intro _ io
        obtain ⟨text, isText, terminated⟩ := exists_netIpv4Str (nextHop stack dstIp)
        rw [isText, pure_bind]
        refine Sends.andThen (sends_klogLvl _ _ _ (matches_of_kinds
          (show argumentKinds 64 (ascii "arping %s for next hop") = some [.string] by
            decide)
          (.cons (accepts_ofString terminated) .nil))) ?_
        intro _ io
        exact sends_pure _ _

/-! ## Datagrams -/

@[simp]
theorem UdpHdr.length_bytes (h : UdpHdr) : h.bytes.length = 8 := by
  simp [UdpHdr.bytes]

theorem udpTotal_of_le (small : len ≤ 1492) : udpTotal len = 8 + len :=
  Nat.mod_eq_of_lt (by omega)

/-- The header of `udp_send` with a checksum. -/
def udpHeader (dstPort srcPort : U16) (len : Nat) (checksum : U16) : UdpHdr where
  srcPort := netHtons srcPort
  dstPort := netHtons dstPort
  len := netHtons (.ofNat 16 (8 + len))
  checksum := checksum

/-- The checksum that `udp_send` computes. -/
def udpChecksum (srcIp dstIp : U32) (dstPort srcPort : U16) (data : List U8)
    (len : Nat) : U16 :=
  let words := (udpHeader dstPort srcPort len 0).bytes ++ data.take len
  netHtons ((~~~ foldSum (addWords (pseudoSum srcIp dstIp (.ofNat 16 (8 + len))) words)
    &&& (0xffff : U32)).setWidth 16)

/-- The segment that `udp_send` passes to `ipv4_send`. -/
def sentSegment (srcIp dstIp : U32) (dstPort srcPort : U16) (data : List U8)
    (len : Nat) : List U8 :=
  (udpHeader dstPort srcPort len (udpChecksum srcIp dstIp dstPort srcPort data len)).bytes ++
    data.take len

/-- The segment that is built holds the data. -/
theorem exists_udpSegment (srcIp dstIp : U32) (dstPort srcPort : U16) {data : List U8}
    (small : len ≤ 1492) (inside : len ≤ data.length) :
    ∃ seg, udpSegment srcIp dstIp dstPort srcPort data len = pure seg ∧ seg.length = 1500 ∧
      seg.take (8 + len) = sentSegment srcIp dstIp dstPort srcPort data len := by
  let buffer : List U8 := replicate 1500 0
  have length : buffer.length = 1500 := length_replicate
  let body := data.take len
  have lengthBody : body.length = len := length_take_of_le inside
  have isBody : part data 0 len = body := by
    rw [part, drop_zero]
  have roomBody : 8 + body.length ≤ buffer.length := by omega
  let blank := (udpHeader dstPort srcPort len 0).bytes
  let header := (udpHeader dstPort srcPort len
    (udpChecksum srcIp dstIp dstPort srcPort data len)).bytes
  have lengthBlank : blank.length = 8 := UdpHdr.length_bytes _
  have lengthHeader : header.length = 8 := UdpHdr.length_bytes _
  have roomBlank : 0 + blank.length ≤ (overwrite buffer 8 body).length := by
    rw [length_overwrite roomBody]
    omega
  have isBlank : overwrite (overwrite buffer 8 body) 0 blank =
      overwrite buffer 0 (blank ++ body) := by
    have behind : 8 = 0 + blank.length := by omega
    nth_rewrite 1 [behind]
    exact overwrite_before (by omega) body
  have isHeader : overwrite (overwrite buffer 0 (blank ++ body)) 0 header =
      overwrite buffer 0 (header ++ body) :=
    overwrite_over (Nat.zero_le _) (by omega) body
  have start (first : List U8) (eight : first.length = 8) :
      part (overwrite buffer 0 (first ++ body)) 0 (8 + len) = first ++ body := by
    have whole : 8 + len = (first ++ body).length := by
      rw [length_append]
      omega
    rw [whole]
    exact part_overwrite (Nat.zero_le _) _
  have room (first : List U8) (eight : first.length = 8) :
      (overwrite buffer 0 (first ++ body)).length = 1500 := by
    rw [length_overwrite (by rw [length_append]; omega), length]
  refine ⟨overwrite buffer 0 (header ++ body), ?_, room header lengthHeader, ?_⟩
  · rw [udpSegment, udpTotal_of_le small, checked_read (by omega), pure_bind, isBody,
      checked_write roomBody, pure_bind]
    change (checked .buffer (write (overwrite buffer 8 body) 0 blank) >>= _) = _
    rw [checked_write roomBlank, pure_bind, isBlank,
      checked_read (by rw [room blank lengthBlank]; omega), pure_bind, start blank lengthBlank]
    change checked .buffer (write _ 0 header) = _
    rw [checked_write (by rw [room blank lengthBlank]; omega), isHeader]
  · have isStart := start header lengthHeader
    rwa [part, drop_zero] at isStart

theorem sends_sourcePort (stack : Stack) (srcPort : U16) : Sends stack (sourcePort srcPort) [] := by
  rw [sourcePort]
  split
  · refine (sends_input stack).andThen ?_
    intro ms io
    exact sends_pure _ _
  · exact sends_pure _ _

/-- `udp_send` returns. -/
theorem exists_sends_udpSend (stack : Stack) (dstIp : U32) (dstPort srcPort : U16)
    {data : List U8} (small : len ≤ 1492) (inside : len ≤ data.length) :
    ∃ frames, Sends stack (udpSend dstIp dstPort srcPort data len) frames := by
  obtain ⟨port, io, ran, handed⟩ := sends_sourcePort stack srcPort
  obtain ⟨seg, isSeg, length, -⟩ := exists_udpSegment stack.ip dstIp dstPort port small inside
  have total := udpTotal_of_le small
  obtain ⟨result, final, sent, handedLater⟩ :=
    sends_ipv4Send { stack with io } dstIp ipProtoUdp seg (8 + len) (by omega)
  refine ⟨_, result, final, ?_, by rw [handedLater, handed, append_assoc]⟩
  rw [udpSend, total, if_neg (by omega), bind_of_ok ran]
  change (udpSegment stack.ip dstIp dstPort port data len >>= _) { stack with io } = _
  rw [isSeg, pure_bind]
  exact sent

end XKern.Net
