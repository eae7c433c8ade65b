import XKern.IpChecksum

namespace XKern.Net

open FaultTriple OnesComplement PackedBytes List BitVec

/-!
# The checksum of a UDP segment

`udp_send` adds the protocol and the length of the pseudo header with their bytes
swapped.  A receiver adds them as they stand, so that the segment verifies only for the
lengths where the two agree modulo 65535, or when the checksum comes out as 0.
-/

/-! ## Verification -/

/-- The pseudo header of the sum. -/
def pseudoHeader (src dst : U32) (udpLength : U16) : List U8 :=
  toBytes 4 (netHtonl src) ++ (toBytes 4 (netHtonl dst) ++
    ([0, 17] ++ toBytes 2 (netHtons udpLength)))

/-- The segment verifies: the sum over it and its pseudo header is 0xffff, or it has no
checksum. -/
def Verifies (src dst : U32) (segment : List U8) : Prop :=
  fold (wordSum (pseudoHeader src dst (.ofNat 16 segment.length) ++ segment)) = 65535 ∨
    part segment 6 2 = [0, 0]

def halves (address : U32) : Nat :=
  address.toNat / 65536 + address.toNat % 65536

def swapped (length : Nat) : Nat :=
  256 * (length % 256) + length / 256

def segmentWords (dstPort srcPort : U16) (data : List U8) : Nat :=
  srcPort.toNat + dstPort.toNat + (8 + data.length) + wordSum data

/-- What `udp_send` adds up. -/
def codeSum (src dst : U32) (dstPort srcPort : U16) (data : List U8) : Nat :=
  halves src + halves dst + 256 * 17 + swapped (8 + data.length) +
    segmentWords dstPort srcPort data

section Sums

variable (src dst : U32) (dstPort srcPort : U16) {data : List U8}

theorem halves_le (address : U32) : halves address ≤ 131070 := by
  have := address.isLt
  rw [halves]
  omega

theorem toNat_high (address : U32) :
    ((address >>> 16) &&& (0xffff : U32)).toNat = address.toNat / 65536 := by
  have := address.isLt
  rw [toNat_and, toNat_ushiftRight, Nat.shiftRight_eq_div_pow,
    show (0xffff : U32).toNat = 2 ^ 16 - 1 from rfl, Nat.and_two_pow_sub_one_eq_mod]
  omega

theorem toNat_low (address : U32) : (address &&& (0xffff : U32)).toNat = address.toNat % 65536 := by
  rw [toNat_and, show (0xffff : U32).toNat = 2 ^ 16 - 1 from rfl, Nat.and_two_pow_sub_one_eq_mod]

theorem toNat_swapped {length : Nat} (small : length < 65536) :
    ((netHtons (.ofNat 16 length)).setWidth 32 : U32).toNat = swapped length := by
  have isWord := wordSum_netHtons (netHtons (.ofNat 16 length))
  rw [netHtons_netHtons] at isWord
  have isLength : (BitVec.ofNat 16 length).toNat = length := Nat.mod_eq_of_lt small
  rw [toBytes, toBytes, toBytes, wordSum, wordSum, toNat_setWidth, toNat_setWidth,
    toNat_ushiftRight, isLength, Nat.shiftRight_eq_div_pow] at isWord
  have high : length / 2 ^ 8 < 2 ^ 8 := by omega
  rw [Nat.mod_eq_of_lt high, add_zero] at isWord
  rw [toNat_setWidth, ← isWord, swapped]
  exact Nat.mod_eq_of_lt (by omega)

theorem toNat_pseudoSum {length : Nat} (small : length < 65536) :
    (pseudoSum src dst (.ofNat 16 length)).toNat =
      halves src + halves dst + 256 * 17 + swapped length := by
  have isProto : ((netHtons (ipProtoUdp.setWidth 16)).setWidth 32 : U32).toNat = 256 * 17 := by
    decide
  have srcLe := halves_le src
  have dstLe := halves_le dst
  have swappedLe : swapped length ≤ 131070 := by
    rw [swapped]
    omega
  have isSum : src.toNat / 65536 + src.toNat % 65536 + dst.toNat / 65536 + dst.toNat % 65536 +
      256 * 17 + swapped length = halves src + halves dst + 256 * 17 + swapped length := by
    rw [halves, halves, add_assoc (_ + _) (dst.toNat / 65536)]
  simp only [pseudoSum, toNat_add, Nat.mod_add_mod]
  rw [toNat_high, toNat_high, toNat_low, toNat_low, isProto, toNat_swapped small, isSum]
  exact Nat.mod_eq_of_lt (by omega)

theorem wordSum_udpHeader (checksum : U16) (short : 8 + data.length < 65536) :
    wordSum (udpHeader dstPort srcPort data.length (netHtons checksum)).bytes =
      srcPort.toNat + dstPort.toNat + (8 + data.length) + checksum.toNat := by
  have isLength : (BitVec.ofNat 16 (8 + data.length)).toNat = 8 + data.length :=
    Nat.mod_eq_of_lt short
  rw [UdpHdr.bytes, udpHeader, wordSum_append (by rw [length_toBytes]),
    wordSum_append (by rw [length_toBytes]), wordSum_append (by rw [length_toBytes]),
    wordSum_netHtons, wordSum_netHtons, wordSum_netHtons, wordSum_netHtons, isLength]
  omega

theorem exists_udpChecksum (short : data.length ≤ 1492) : ∃ complement : U16,
      udpChecksum src dst dstPort srcPort data data.length = netHtons complement ∧
        complement.toNat = 65535 - fold (codeSum src dst dstPort srcPort data) := by
  have sumLe := wordSum_le data
  have srcLe := halves_le src
  have dstLe := halves_le dst
  have := srcPort.isLt
  have := dstPort.isLt
  have isPseudo := toNat_pseudoSum src dst (show 8 + data.length < 65536 by omega)
  have isWords : wordSum ((udpHeader dstPort srcPort data.length 0).bytes ++ data) =
      segmentWords dstPort srcPort data := by
    rw [wordSum_append (by rw [UdpHdr.length_bytes]),
      show (0 : U16) = netHtons 0 from rfl, wordSum_udpHeader dstPort srcPort 0 (by omega),
      show (0 : U16).toNat = 0 from rfl, add_zero, segmentWords]
  refine ⟨_, rfl, ?_⟩
  rw [toNat_complement, take_length, toNat_addWords, isPseudo, isWords, codeSum]
  rw [isPseudo, isWords, swapped, segmentWords]
  omega

theorem length_sentSegment :
    (sentSegment src dst dstPort srcPort data data.length).length = 8 + data.length := by
  rw [sentSegment, length_append, UdpHdr.length_bytes, take_length]

theorem wordSum_received (short : data.length ≤ 1492) :
    wordSum (pseudoHeader src dst (.ofNat 16 (8 + data.length)) ++
        sentSegment src dst dstPort srcPort data data.length) =
      halves src + halves dst + 17 + (8 + data.length) + segmentWords dstPort srcPort data +
        (65535 - fold (codeSum src dst dstPort srcPort data)) := by
  obtain ⟨complement, isChecksum, value⟩ := exists_udpChecksum src dst dstPort srcPort short
  have isLength : (BitVec.ofNat 16 (8 + data.length)).toNat = 8 + data.length :=
    Nat.mod_eq_of_lt (by omega)
  have isPseudo : wordSum (pseudoHeader src dst (BitVec.ofNat 16 (8 + data.length))) =
      halves src + halves dst + 17 + (8 + data.length) := by
    rw [pseudoHeader, wordSum_append (by rw [length_toBytes]),
      wordSum_append (by rw [length_toBytes]), wordSum_append (by decide), wordSum_netHtonl,
      wordSum_netHtonl, wordSum_netHtons, isLength, halves, halves,
      show wordSum [0, 17] = 17 from rfl]
    omega
  have even : (pseudoHeader src dst (.ofNat 16 (8 + data.length))).length % 2 = 0 := by
    simp [pseudoHeader]
  rw [wordSum_append even, isPseudo, sentSegment, isChecksum, take_length,
    wordSum_append (by rw [UdpHdr.length_bytes]), wordSum_udpHeader dstPort srcPort _ (by omega),
    value, segmentWords]
  omega

theorem checksumField (short : data.length ≤ 1492) :
    part (sentSegment src dst dstPort srcPort data data.length) 6 2 = [0, 0] ↔
      65535 ∣ codeSum src dst dstPort srcPort data := by
  obtain ⟨complement, isChecksum, value⟩ := exists_udpChecksum src dst dstPort srcPort short
  have isField : part (sentSegment src dst dstPort srcPort data data.length) 6 2 =
      toBytes 2 (netHtons complement) := by
    rw [sentSegment, part_append_left (by rw [UdpHdr.length_bytes]), isChecksum, UdpHdr.bytes,
      udpHeader, part_append_right (by rw [length_toBytes]; decide), length_toBytes,
      part_append_right (by rw [length_toBytes]; decide), length_toBytes,
      part_append_right (by rw [length_toBytes]), length_toBytes]
    exact part_self (toBytes 2 (netHtons complement))
  have positive : 0 < codeSum src dst dstPort srcPort data := by
    rw [codeSum]
    omega
  have small := fold_lt (codeSum src dst dstPort srcPort data)
  have isZero : toBytes 2 (netHtons complement) = [0, 0] ↔ complement.toNat = 0 := by
    constructor
    · intro same
      rw [← wordSum_netHtons, same]
      rfl
    · intro same
      rw [show complement = 0 from toNat_inj.mp same]
      decide
  rw [isField, isZero, value, ← fold_eq_iff positive]
  omega

/-- A swapped length agrees with the length, each with the protocol in front of it. -/
theorem swapped_agrees_iff {length : Nat} (short : length ≤ 1500) :
    (17 + length) % 65535 = (256 * 17 + swapped length) % 65535 ↔ 257 ∣ 17 + length := by
  have few : length / 256 < 6 := by omega
  have low : length % 256 < 256 := Nat.mod_lt _ (by decide)
  have isLength := Nat.div_add_mod length 256
  rw [swapped]
  generalize length / 256 = high at *
  generalize length % 256 = rest at *
  subst isLength
  interval_cases high <;> omega

/-- The segment verifies for these lengths, or if the sum of `udp_send` folds to
0xffff. -/
theorem verifies_sentSegment_iff (short : data.length ≤ 1492) :
    Verifies src dst (sentSegment src dst dstPort srcPort data data.length) ↔
      257 ∣ data.length + 25 ∨ 65535 ∣ codeSum src dst dstPort srcPort data := by
  have agrees := swapped_agrees_iff (show 8 + data.length ≤ 1500 by omega)
  have positive : 0 < codeSum src dst dstPort srcPort data := by
    rw [codeSum]
    omega
  let common := halves src + halves dst + segmentWords dstPort srcPort data
  have received : halves src + halves dst + 17 + (8 + data.length) +
      segmentWords dstPort srcPort data = 17 + (8 + data.length) + common := by
    omega
  have computed : codeSum src dst dstPort srcPort data =
      256 * 17 + swapped (8 + data.length) + common := by
    rw [codeSum]
    omega
  have isSum : data.length + 25 = 17 + (8 + data.length) := by omega
  rw [Verifies, checksumField src dst dstPort srcPort short, length_sentSegment,
    wordSum_received src dst dstPort srcPort short, fold_eq_iff (by omega),
    dvd_add_complement_iff _ positive, received, computed, add_mod_cancel, agrees, isSum]

end Sums

/-! ## The call -/

/-- The source port that `udp_send` uses: one from the clock in the place of 0. -/
def chosenPort (stack : Stack) (srcPort : U16) : U16 :=
  if srcPort = 0 then
    (0xc000 ^^^ (stack.io.inputs stack.io.taken).setWidth 32 : U32).setWidth 16
  else
    srcPort

theorem exists_sourcePort (stack : Stack) (srcPort : U16) :
    ∃ io, sourcePort srcPort stack = .ok (chosenPort stack srcPort) { stack with io } := by
  rw [sourcePort, chosenPort]
  split
  · exact ⟨_, rfl⟩
  · exact ⟨stack.io, rfl⟩

theorem exists_udpSend (stack : Stack) (dstIp : U32) (dstPort srcPort : U16) {data : List U8}
    (short : data.length ≤ 1492) :
    ∃ io seg,
      udpSegment stack.ip dstIp dstPort (chosenPort stack srcPort) data data.length = pure seg ∧
        udpSend dstIp dstPort srcPort data data.length stack =
          ipv4Send dstIp ipProtoUdp seg (8 + data.length) { stack with io } ∧
        seg.take (8 + data.length) =
          sentSegment stack.ip dstIp dstPort (chosenPort stack srcPort) data data.length := by
  obtain ⟨io, ran⟩ := exists_sourcePort stack srcPort
  obtain ⟨seg, isSeg, length, isSegment⟩ :=
    exists_udpSegment stack.ip dstIp dstPort (chosenPort stack srcPort) short (le_refl _)
  refine ⟨io, seg, isSeg, ?_, isSegment⟩
  rw [udpSend, udpTotal_of_le short, if_neg (by omega), bind_of_ok ran]
  change (udpSegment stack.ip dstIp dstPort (chosenPort stack srcPort) data data.length >>= _)
    { stack with io } = _
  rw [isSeg, pure_bind]

/-- `udp_send` passes on the segment that it builds, which verifies exactly if its length
with 25 more is a multiple of 257, or if the sum of its words with the swapped protocol and
length is a multiple of 65535. -/
theorem udpSend_verifies_iff (stack : Stack) (dstIp : U32) (dstPort srcPort : U16) (data : List U8)
    (short : data.length ≤ 1472) :
    ∃ io seg,
      udpSegment stack.ip dstIp dstPort (chosenPort stack srcPort) data data.length = pure seg ∧
        udpSend dstIp dstPort srcPort data data.length stack =
          ipv4Send dstIp ipProtoUdp seg (8 + data.length) { stack with io } ∧
        (Verifies stack.ip dstIp (seg.take (8 + data.length)) ↔
          257 ∣ data.length + 25 ∨
            65535 ∣ codeSum stack.ip dstIp dstPort (chosenPort stack srcPort) data) := by
  have small : data.length ≤ 1492 := by omega
  obtain ⟨io, seg, isSeg, sent, isSegment⟩ := exists_udpSend stack dstIp dstPort srcPort small
  refine ⟨io, seg, isSeg, sent, ?_⟩
  rw [isSegment]
  exact verifies_sentSegment_iff stack.ip dstIp dstPort _ small

/-- A segment of 240 bytes verifies. -/
theorem long_datagram_verifies :
    ∃ io seg,
      udpSegment bootStack.ip 0xffffffff 67 68 (List.replicate 232 0) 232 = pure seg ∧
        udpSend 0xffffffff 67 68 (List.replicate 232 0) 232 bootStack =
          ipv4Send 0xffffffff ipProtoUdp seg 240 { bootStack with io } ∧
        Verifies bootStack.ip 0xffffffff (seg.take 240) := by
  have length : (List.replicate 232 (0 : U8)).length = 232 := length_replicate
  obtain ⟨io, seg, isSeg, sent, verifies⟩ := udpSend_verifies_iff bootStack 0xffffffff 67 68
    (List.replicate 232 0) (by omega)
  rw [length] at isSeg sent verifies
  exact ⟨io, seg, isSeg, sent, verifies.mpr (.inl (by decide))⟩

/-- A datagram without data between the ports of DHCP does not verify. -/
theorem empty_datagram_fails :
    ∃ io seg,
      udpSegment bootStack.ip 0xffffffff 67 68 [] 0 = pure seg ∧
        udpSend 0xffffffff 67 68 [] 0 bootStack =
          ipv4Send 0xffffffff ipProtoUdp seg 8 { bootStack with io } ∧
        ¬ Verifies bootStack.ip 0xffffffff (seg.take 8) := by
  have short : ([] : List U8).length ≤ 1492 := by decide
  obtain ⟨io, seg, isSeg, sent, isSegment⟩ := exists_udpSend bootStack 0xffffffff 67 68 short
  have noMultiple : ¬ (257 ∣ ([] : List U8).length + 25 ∨
      65535 ∣ codeSum bootStack.ip 0xffffffff 67 (chosenPort bootStack 68) []) := by
    decide
  refine ⟨io, seg, isSeg, sent, ?_⟩
  intro verifies
  apply noMultiple
  rw [← verifies_sentSegment_iff _ _ _ _ short, ← isSegment]
  exact verifies

end XKern.Net
