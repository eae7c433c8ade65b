import XKern.IpChecksum
import XKern.NetLayouts

namespace XKern.Net

open FaultTriple PackedBytes List

/-!
# The reply to an ARP request

`arp_rx` writes its reply over the request and passes the address of the reply to
`ether_send`, which takes it for the address of a frame and puts the Ethernet header
there.  The header covers the first 14 bytes of the reply, and 14 bytes from behind it
are sent in its place.
-/

/-! ## Requests and replies as bytes -/

/-- The frame carries an ARP request for the address of the stack. -/
structure CarriesRequest (stack : Stack) (frame : List U8) : Prop where
  isArp : part frame 12 2 = [0x08, 0x06]
  isIpv4 : part frame 16 2 = [0x08, 0x00]
  isRequest : part frame 20 2 = [0x00, 0x01]
  isForUs : part frame 38 4 = toBytes 4 (netHtonl stack.ip)

/-- `sha` of a request. -/
def requesterMac (frame : List U8) : List U8 :=
  part frame 22 6

/-- `spa` of a request. -/
def requesterIp (frame : List U8) : List U8 :=
  part frame 28 4

/-- The first half of the reply: the formats of the request, the operation 2 and the
hardware address of the stack. -/
def replyFront (stack : Stack) (frame : List U8) : List U8 :=
  part frame 14 6 ++ ([0x00, 0x02] ++ ofFn stack.mac)

/-- The second half of the reply: the address of the stack, and the target. -/
def replyBack (stack : Stack) (frame : List U8) : List U8 :=
  toBytes 4 (netHtonl stack.ip) ++ (requesterMac frame ++ requesterIp frame)

def replyHeader (stack : Stack) (frame : List U8) : List U8 :=
  requesterMac frame ++ (ofFn stack.mac ++ [0x08, 0x06])

/-- The reply that is asked for. -/
def expectedReply (stack : Stack) (frame : List U8) : List U8 :=
  replyHeader stack frame ++ (replyFront stack frame ++ replyBack stack frame)

/-- The call returns and has handed over the answer and nothing else. -/
def Answers (stack : Stack) (frame : List U8) (len : Nat) : Prop :=
  ∃ after, etherRx frame len stack = .ok () after ∧
    after.io.handed = stack.io.handed ++ [expectedReply stack frame]

/-! ## Fields of the request -/

section Request

variable {frame : List U8}

theorem ofFn_macAt {bytes : List U8} {offset : Nat} (inside : offset + 6 ≤ bytes.length) :
    ofFn (macAt bytes offset) = part bytes offset 6 := by
  apply ext_getElem
  · rw [length_ofFn, length_part inside]
  · intro i isIndex inPart
    rw [length_ofFn] at isIndex
    rw [List.getElem_ofFn, macAt, getD_eq_getElem _ _ (by omega)]
    simp only [part, getElem_take, getElem_drop]

theorem toBytes_u32At {bytes : List U8} {offset : Nat} (inside : offset + 4 ≤ bytes.length) :
    toBytes 4 (u32At bytes offset) = part bytes offset 4 := by
  have length := length_part inside
  rw [u32At]
  nth_rewrite 1 [← length]
  exact toBytes_ofBytes (by omega)

def requestOf (frame : List U8) : ArpPkt :=
  .ofBytes (part frame 14 28)

theorem sha_requestOf (long : 42 ≤ frame.length) :
    ofFn (requestOf frame).sha = requesterMac frame := by
  have inside : 8 + 6 ≤ (part frame 14 28).length := by
    rw [length_part long]
    decide
  change ofFn (macAt (part frame 14 28) 8) = _
  rw [ofFn_macAt inside, part_part frame 14 (by decide), requesterMac]

theorem spa_requestOf (long : 42 ≤ frame.length) :
    toBytes 4 (requestOf frame).spa = requesterIp frame := by
  have inside : 14 + 4 ≤ (part frame 14 28).length := by
    rw [length_part long]
    decide
  change toBytes 4 (u32At (part frame 14 28) 14) = _
  rw [toBytes_u32At inside, part_part frame 14 (by decide), requesterIp]

variable {stack : Stack} (request : CarriesRequest stack frame)

include request

theorem ptype_requestOf : netHtons (requestOf frame).ptype = ethertypeIpv4 := by
  change netHtons (ofBytes 16 (part (part frame 14 28) 2 2)) = _
  rw [part_part frame 14 (by decide), request.isIpv4]
  decide

theorem op_requestOf : netHtons (requestOf frame).op = 1 := by
  change netHtons (ofBytes 16 (part (part frame 14 28) 6 2)) = _
  rw [part_part frame 14 (by decide), request.isRequest]
  decide

theorem tpa_requestOf : (requestOf frame).tpa = netHtonl stack.ip := by
  change ofBytes 32 (part (part frame 14 28) 24 4) = _
  rw [part_part frame 14 (by decide), request.isForUs, ofBytes_toBytes (by decide)]

theorem type_requestOf : netHtons (EthHdr.ofBytes (part frame 0 14)).type = ethertypeArp := by
  change netHtons (ofBytes 16 (part (part frame 0 14) 12 2)) = _
  rw [part_part frame 0 (by decide), request.isArp]
  decide

end Request

/-! ## What is sent -/

/-- The cache behind `arp_cache_add`. -/
def addedTo (cache : Fin 16 → ArpCacheEnt) (entry : ArpCacheEnt) : Fin 16 → ArpCacheEnt :=
  match cacheSlot cache entry.ip (finRange 16) none with
  | none => cache
  | some slot => Function.update cache slot entry

theorem exists_arpCacheAdd (stack : Stack) (sha : Mac) (spaWire : U32) :
    ∃ stamp io, arpCacheAdd sha spaWire stack = .ok () { stack with
        cache := addedTo stack.cache { ip := spaWire, mac := sha, stamp, used := true }, io } ∧
      io.handed = stack.io.handed := by
  rw [arpCacheAdd, get_bind]
  simp only [addedTo]
  cases cacheSlot stack.cache spaWire (finRange 16) none with
  | none => exact ⟨0, stack.io, rfl, rfl⟩
  | some slot => exact ⟨_, _, rfl, rfl⟩

/-- The reply that `arp_rx` writes over the request. -/
def replyPkt (stack : Stack) (frame : List U8) : ArpPkt :=
  { requestOf frame with
    op := netHtons 2
    tha := (requestOf frame).sha
    sha := stack.mac
    spa := (requestOf frame).tpa
    tpa := (requestOf frame).spa }

theorem drop_replyPkt {stack : Stack} {frame : List U8} (request : CarriesRequest stack frame)
    (long : 42 ≤ frame.length) :
    (replyPkt stack frame).bytes.drop 14 = replyBack stack frame := by
  let a := replyPkt stack frame
  have cut : a.bytes = (toBytes 2 a.htype ++ (toBytes 2 a.ptype ++ ([a.hlen] ++ ([a.plen] ++
      (toBytes 2 a.op ++ ofFn a.sha))))) ++
        (toBytes 4 a.spa ++ (ofFn a.tha ++ toBytes 4 a.tpa)) := by
    simp only [ArpPkt.bytes, append_assoc]
  have back : toBytes 4 a.spa ++ (ofFn a.tha ++ toBytes 4 a.tpa) = replyBack stack frame := by
    change toBytes 4 (requestOf frame).tpa ++
      (ofFn (requestOf frame).sha ++ toBytes 4 (requestOf frame).spa) = _
    rw [tpa_requestOf request, sha_requestOf long, spa_requestOf long, replyBack]
  rw [cut, drop_left' (by simp), back]

/-- The frame that is sent as a reply. -/
def sentReply (stack : Stack) (frame : List U8) : List U8 :=
  replyHeader stack frame ++ (replyBack stack frame ++ part frame 42 14)

theorem handed_of_request {stack : Stack} {frame : List U8} {len : Nat} (size : frame.length = 1518)
    (long : 42 ≤ len) (request : CarriesRequest stack frame) :
    ∃ after, etherRx frame len stack = .ok () after ∧
      after.io.handed = stack.io.handed ++ [sentReply stack frame] := by
  have sizeLong : 42 ≤ frame.length := by omega
  have isRead : checked .frame (read (frame.drop 14) 0 28) =
      (pure (part frame 14 28) : NetM (List U8)) := by
    rw [checked_read (by rw [length_drop]; omega), part, drop_zero, part]
  obtain ⟨stamp, io, added, handed⟩ :=
    exists_arpCacheAdd stack (requestOf frame).sha (requestOf frame).spa
  generalize addedTo stack.cache _ = cache at added
  -- The reply in the place of the request.
  let pkt := overwrite (frame.drop 14) 0 (replyPkt stack frame).bytes
  have room : 0 + (replyPkt stack frame).bytes.length ≤ (frame.drop 14).length := by
    rw [ArpPkt.length_bytes, length_drop]
    omega
  have lengthPkt : pkt.length = 1504 := by
    rw [length_overwrite room, length_drop]
    omega
  have isBody : part pkt 14 28 = replyBack stack frame ++ part frame 42 14 := by
    have front : (replyPkt stack frame).bytes.drop 14 = replyBack stack frame :=
      drop_replyPkt request sizeLong
    have lengthBack : (replyBack stack frame).length = 14 := by
      rw [← front, length_drop, ArpPkt.length_bytes]
    have isDrop : pkt.drop 14 = replyBack stack frame ++ frame.drop 42 := by
      change (overwrite _ 0 _).drop 14 = _
      rw [overwrite, take_zero, nil_append, drop_append_of_le_length
        (by rw [ArpPkt.length_bytes]; decide), front, ArpPkt.length_bytes, drop_drop]
    rw [part, isDrop, take_append, lengthBack, take_of_length_le (by rw [lengthBack]; decide), part]
  obtain ⟨result, final, sent, handedLater⟩ := sends_etherSend { stack with cache, io }
    (requestOf frame).sha ethertypeArp pkt 28 (by omega)
  refine ⟨{ stack with cache, io := final }, ?_, ?_⟩
  · rw [etherRx, if_neg (by omega), checked_read (by omega), pure_bind,
      type_requestOf request, if_pos rfl, arpRx, if_neg (by omega), isRead, pure_bind]
    change (if netHtons (requestOf frame).ptype ≠ ethertypeIpv4 then _ else _ : NetM Unit) stack = _
    rw [ptype_requestOf request, if_neg (by simp)]
    change (arpCacheAdd (requestOf frame).sha (requestOf frame).spa >>= _) stack = _
    rw [bind_of_ok added]
    change (if netHtons (requestOf frame).op = 1 ∧ netHtonl (requestOf frame).tpa = stack.ip then _
      else _ : NetM Unit) { stack with cache, io } = _
    rw [op_requestOf request, tpa_requestOf request, netHtonl_netHtonl, if_pos ⟨rfl, rfl⟩]
    change (checked .frame (write (frame.drop 14) 0 (replyPkt stack frame).bytes) >>= _)
      { stack with cache, io } = _
    rw [checked_write room, pure_bind]
    exact bind_of_ok sent
  · have isHeader : (sentHeader { stack with cache, io } (requestOf frame).sha ethertypeArp).bytes =
        replyHeader stack frame := by
      have isType : toBytes 2 (netHtons ethertypeArp) = [0x08, 0x06] := by decide
      rw [EthHdr.bytes, sentHeader, isType, sha_requestOf sizeLong, replyHeader]
    rw [handedLater, handed, isHeader, isBody, sentReply]

/-- The answer to a request is sent exactly if its two halves happen to be equal and the
14 bytes behind the request are another copy of them. -/
theorem answers_request_iff (stack : Stack) (frame : List U8) (len : Nat)
    (size : frame.length = 1518) (long : 42 ≤ len) (request : CarriesRequest stack frame) :
    Answers stack frame len ↔
      replyFront stack frame = replyBack stack frame ∧
        part frame 42 14 = replyBack stack frame := by
  obtain ⟨after, ran, handed⟩ := handed_of_request size long request
  have lengthFront : (replyFront stack frame).length = 14 := by
    simp [replyFront, length_part (show 14 + 6 ≤ frame.length by omega)]
  have lengthBack : (replyBack stack frame).length = 14 := by
    simp [replyBack, requesterMac, requesterIp, length_part (show 22 + 6 ≤ frame.length by omega),
      length_part (show 28 + 4 ≤ frame.length by omega)]
  have same : Answers stack frame len ↔ sentReply stack frame = expectedReply stack frame := by
    constructor
    · rintro ⟨other, alsoRan, expected⟩
      rw [ran] at alsoRan
      cases alsoRan
      rw [handed] at expected
      exact singleton_inj.mp (append_cancel_left expected)
    · intro isExpected
      exact ⟨after, ran, isExpected ▸ handed⟩
  rw [same, sentReply, expectedReply, append_cancel_left_eq]
  constructor
  · intro isEqual
    obtain ⟨first, second⟩ := append_inj isEqual (by omega)
    exact ⟨first.symm, second⟩
  · rintro ⟨first, second⟩
    rw [first, second]

/-- A request of 10.0.2.2 for 10.0.2.15, in a buffer with zeros behind it. -/
def requestFrame : List U8 :=
  [0xff, 0xff, 0xff, 0xff, 0xff, 0xff, 0x52, 0x55, 0x0a, 0x00, 0x02, 0x02, 0x08, 0x06,
    0x00, 0x01, 0x08, 0x00, 0x06, 0x04, 0x00, 0x01, 0x52, 0x55, 0x0a, 0x00, 0x02, 0x02,
    0x0a, 0x00, 0x02, 0x02, 0x00, 0x00, 0x00, 0x00, 0x00, 0x00, 0x0a, 0x00, 0x02, 0x0f] ++
  replicate 1476 0

def requestedStack : Stack :=
  { bootStack with ip := 0x0a00020f }

/-- The fields of the reply are shifted. -/
theorem request_not_answered : ¬ Answers requestedStack requestFrame 60 := by
  have request : CarriesRequest requestedStack requestFrame :=
    ⟨by decide, by decide, by decide, by decide⟩
  have size : requestFrame.length = 1518 := by decide +kernel
  obtain ⟨after, ran, handed⟩ := handed_of_request size (show 42 ≤ 60 by decide) request
  rintro ⟨other, alsoRan, expected⟩
  rw [ran] at alsoRan
  cases alsoRan
  rw [handed] at expected
  have isExpected := singleton_inj.mp (append_cancel_left expected)
  have differs : sentReply requestedStack requestFrame ≠
      expectedReply requestedStack requestFrame := by
    decide
  exact differs isExpected

/-- A request whose addresses make up the first half of its reply. -/
def luckyFrame : List U8 :=
  [0xff, 0xff, 0xff, 0xff, 0xff, 0xff, 0x06, 0x04, 0x00, 0x02, 0x52, 0x54, 0x08, 0x06,
    0x00, 0x01, 0x08, 0x00, 0x06, 0x04, 0x00, 0x01, 0x06, 0x04, 0x00, 0x02, 0x52, 0x54,
    0x00, 0x12, 0x34, 0x56, 0x00, 0x00, 0x00, 0x00, 0x00, 0x00, 0x00, 0x01, 0x08, 0x00,
    0x00, 0x01, 0x08, 0x00, 0x06, 0x04, 0x00, 0x02, 0x52, 0x54, 0x00, 0x12, 0x34, 0x56] ++
  replicate 1462 0

def luckyStack : Stack :=
  { bootStack with ip := 0x00010800 }

/-- The shifted fields happen to be right. -/
theorem lucky_request_answered : Answers luckyStack luckyFrame 60 := by
  have request : CarriesRequest luckyStack luckyFrame :=
    ⟨by decide, by decide, by decide, by decide⟩
  exact (answers_request_iff luckyStack luckyFrame 60 (by decide +kernel) (by decide)
    request).mpr ⟨by decide, by decide⟩

end XKern.Net
