import XKern.ArpReply
import XKern.DhcpCalls

namespace XKern.Net

open FaultTriple Libkern PackedBytes List

/-!
# Memory safety of the receive path

No frame makes `ether_rx` or a call below it leave a buffer.  Every length that a header
gives is checked against the length from the layer below, so that each handler gets
memory that is as long as it is told.
-/

/-- The program returns. -/
def Returns {Value : Type} (stack : Stack) (program : NetM Value) : Prop :=
  ∃ value after, program stack = .ok value after

section Rules

variable {Value Result : Type} {stack : Stack}

theorem returns_pure (stack : Stack) (value : Value) : Returns stack (pure value : NetM Value) :=
  ⟨value, stack, rfl⟩

variable {program : NetM Value}

theorem Sends.returns {frames : List (List U8)} (sends : Sends stack program frames) :
    Returns stack program := by
  obtain ⟨result, io, ran, -⟩ := sends
  exact ⟨result, _, ran⟩

theorem Returns.bind {next : Value → NetM Result} (first : Returns stack program)
    (second : ∀ value after, Returns after (next value)) :
    Returns stack (program >>= next) := by
  obtain ⟨value, after, ran⟩ := first
  obtain ⟨result, final, ranLater⟩ := second value after
  exact ⟨result, final, (bind_of_ok ran).trans ranLater⟩

theorem returns_get {next : Stack → NetM Result} (returns : Returns stack (next stack)) :
    Returns stack (get >>= next) :=
  returns

end Rules

/-! ## ARP -/

variable {pkt : List U8} {len : Nat}

/-- `arp_rx` on a packet of 28 bytes or more, of which 42 lie in the buffer. -/
theorem returns_arpRx (stack : Stack) (size : 42 ≤ pkt.length) (len : Nat) :
    Returns stack (arpRx pkt len) := by
  rw [arpRx]
  split
  · exact returns_pure _ _
  · rw [checked_read (by omega), pure_bind]
    dsimp only
    split
    · exact returns_pure _ _
    · obtain ⟨cache, io, added, -⟩ := exists_arpCacheAdd stack
        (ArpPkt.ofBytes (part pkt 0 28)).sha (ArpPkt.ofBytes (part pkt 0 28)).spa
      refine Returns.bind ⟨(), _, added⟩ ?_
      intro _ after
      apply returns_get
      split
      · rw [checked_write (by rw [ArpPkt.length_bytes]; omega), pure_bind]
        refine (sends_etherSend after _ _ _ 28 ?_).returns.bind ?_
        · rw [length_overwrite (by rw [ArpPkt.length_bytes]; omega)]
          omega
        · intro _ _
          exact returns_pure _ _
      · exact returns_pure _ _

/-! ## ICMP -/

theorem returns_logEcho (stack : Stack) {fmt : String} (kinds : argumentKinds 64 (ascii fmt) =
      some [.string, .unsigned 10 false, .unsigned 10 false])
    (srcIpHost : U32) (h : IcmpHdr) :
    Returns stack (logEcho fmt srcIpHost h) := by
  obtain ⟨text, isText, terminated⟩ := exists_netIpv4Str srcIpHost
  rw [logEcho, isText, pure_bind]
  exact (sends_klogLvl _ _ _ (matches_of_kinds kinds
    (.cons (accepts_ofString terminated) (.cons (accepts_ofU32 _)
      (.cons (accepts_ofU32 _) .nil))))).returns

theorem returns_icmpRx (stack : Stack) (inside : len ≤ pkt.length) (small : len ≤ 1500)
    (srcIpHost : U32) :
    Returns stack (icmpRx pkt len srcIpHost) := by
  rw [icmpRx]
  split
  · exact returns_pure _ _
  · rename_i long
    rw [checked_read (by omega), pure_bind]
    dsimp only
    split
    · exact returns_logEcho stack (by decide) _ _
    · split
      · exact returns_pure _ _
      · refine (returns_logEcho stack (by decide) _ _).bind ?_
        intro _ after
        have lengthEcho : (part pkt 0 len).length = len := length_part (by omega)
        rw [checked_read (by omega), pure_bind]
        obtain ⟨first, isFirst, sizeFirst⟩ := exists_write .buffer (replicate 1500 0) 0
          (part pkt 0 len) (by rw [length_replicate]; omega)
        rw [length_replicate] at sizeFirst
        obtain ⟨second, isSecond, sizeSecond⟩ := exists_write .buffer first 0 [0]
          (by rw [length_singleton]; omega)
        obtain ⟨third, isThird, sizeThird⟩ := exists_write .buffer second 2 (toBytes 2 (0 : U16))
          (by rw [length_toBytes]; omega)
        obtain ⟨last, isLast, sizeLast⟩ := exists_write .buffer third 2
          (toBytes 2 (ipChecksum (part third 0 len))) (by rw [length_toBytes]; omega)
        rw [isFirst, pure_bind, isSecond, pure_bind, isThird, pure_bind, checked_read (by omega),
          pure_bind, isLast, pure_bind]
        refine (sends_ipv4Send after _ _ last len (by omega)).returns.bind ?_
        intro _ _
        exact returns_pure _ _

/-! ## UDP -/

theorem returns_udpRx (stack : Stack) (inside : len ≤ pkt.length) (srcIpHost : U32) :
    Returns stack (udpRx pkt len srcIpHost) := by
  rw [udpRx]
  split
  · exact returns_pure _ _
  · rw [checked_read (by omega), pure_bind]
    dsimp only
    split
    · exact returns_pure _ _
    · rename_i lengths
      apply returns_get
      split
      · exact returns_pure _ _
      · split
        · have insideData : (netHtons (UdpHdr.ofBytes (part pkt 0 8)).len).toNat - 8 ≤
              (pkt.drop 8).length := by
            rw [length_drop]
            omega
          obtain ⟨after, ran, -⟩ := dhcpRx_cases stack srcIpHost
            (netHtons (UdpHdr.ofBytes (part pkt 0 8)).srcPort) insideData
          exact ⟨(), after, ran⟩
        · exact returns_pure _ _

/-! ## IPv4 and Ethernet -/

theorem returns_ipv4Rx (stack : Stack) (inside : len ≤ pkt.length) (small : len ≤ 1504) :
    Returns stack (ipv4Rx pkt len) := by
  rw [ipv4Rx]
  split
  · exact returns_pure _ _
  · rw [checked_read (by omega), pure_bind]
    dsimp only
    split
    · exact returns_pure _ _
    · split
      · exact returns_pure _ _
      · rename_i lengths
        have insidePayload : (netHtons (Ipv4Hdr.ofBytes (part pkt 0 20)).totalLen).toNat - 20 ≤
            (pkt.drop 20).length := by
          rw [length_drop]
          omega
        apply returns_get
        split
        · exact returns_pure _ _
        · split
          · exact returns_pure _ _
          · split
            · exact returns_icmpRx stack insidePayload (by omega) _
            · split
              · exact returns_udpRx stack insidePayload _
              · exact returns_pure _ _

/-- A frame of at most 1518 bytes in a buffer of 1518 bytes leads to no access outside of
the buffer or, from IPv4 on, of the frame, and to none outside of the buffers of the
calls. -/
theorem etherRx_returns (stack : Stack) (frame : List U8) (len : Nat) (size : frame.length = 1518)
    (positive : 1 ≤ len) (fits : len ≤ 1518) :
    ∃ after, etherRx frame len stack = .ok () after := by
  suffices returns : Returns stack (etherRx frame len) by
    obtain ⟨_, after, ran⟩ := returns
    exact ⟨after, ran⟩
  rw [etherRx]
  split
  · exact returns_pure _ _
  · rw [checked_read (by omega), pure_bind]
    dsimp only
    split
    · exact returns_arpRx stack (by rw [length_drop]; omega) _
    · split
      · have length : ((frame.take len).drop 14).length = len - 14 := by
          rw [length_drop, length_take_of_le (by omega)]
        exact returns_ipv4Rx stack (by omega) (by omega)
      · exact returns_pure _ _

/-- A frame with an echo request of 8 bytes from 10.0.2.15 to 10.0.2.2. -/
def echoRequest : List U8 :=
  [ 0x52, 0x54, 0, 0x12, 0x34, 0x56, 0x52, 0x54, 0, 0x12, 0x34, 0x57, 8, 0,
    0x45, 0, 0, 28, 0, 0, 0, 0, 64, 1, 0x62, 0xd1, 10, 0, 2, 15, 10, 0, 2, 2,
    8, 0, 0xf7, 0xff, 0, 0, 0, 0 ]

/-- The host 10.0.2.2, which knows the sender of the request. -/
def echoHost : Stack :=
  { bootStack with
    ip := 0x0a000202
    cache := fun i =>
      if i = 0 then
        { ip := netHtonl 0x0a00020f, mac := fun _ => 0x52, stamp := 0, used := true }
      else
        bootStack.cache i }

/-- The request goes through IPv4 and ICMP, and one frame with the echo reply is sent. -/
theorem echoRequest_returns :
    ∃ after, etherRx (echoRequest ++ replicate 1476 0) 42 echoHost = .ok () after ∧
      after.io.handed.map (drop 34) = [[0, 0, 0xff, 0xff, 0, 0, 0, 0]] := by
  obtain ⟨after, ran⟩ := etherRx_returns echoHost (echoRequest ++ replicate 1476 0) 42
    (by rw [length_append, length_replicate]; rfl) (by decide) (by decide)
  have answered : (finalState (etherRx (echoRequest ++ replicate 1476 0) 42)
      echoHost).io.handed.map (drop 34) = [[0, 0, 0xff, 0xff, 0, 0, 0, 0]] := by
    decide +kernel
  rw [finalState_of_ok ran] at answered
  exact ⟨after, ran, answered⟩

end XKern.Net
