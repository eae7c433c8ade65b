import XKern.NetDevice

namespace XKern.Net

open Libkern PackedBytes List

/-!
# The network stack

Model of `arp.c`, `ipv4.c`, `icmp.c`, `udp.c`, `dhcp.c` and of `ether_rx` in
`iokit/IONetFamily`.  Local and static buffers start with zero bytes; what they held
before is overwritten as far as it is used.  Below `ipv4_rx` only the bytes that were
received may be read, and `arp_rx` may use the whole buffer of the frame.
-/

/-- `ETHERTYPE_IPV4`. -/
def ethertypeIpv4 : U16 := 0x0800

/-- `ETHERTYPE_ARP`. -/
def ethertypeArp : U16 := 0x0806

/-- `IP_PROTO_ICMP`. -/
def ipProtoIcmp : U8 := 1

/-- `IP_PROTO_UDP`. -/
def ipProtoUdp : U8 := 17

/-! ## ARP -/

/-- `struct arp_pkt`. -/
structure ArpPkt where
  htype : U16
  ptype : U16
  hlen : U8
  plen : U8
  op : U16
  sha : Mac
  spa : U32
  tha : Mac
  tpa : U32

def ArpPkt.bytes (a : ArpPkt) : List U8 :=
  toBytes 2 a.htype ++ (toBytes 2 a.ptype ++ ([a.hlen] ++ ([a.plen] ++ (toBytes 2 a.op ++
    (ofFn a.sha ++ (toBytes 4 a.spa ++ (ofFn a.tha ++ toBytes 4 a.tpa)))))))

def ArpPkt.ofBytes (bytes : List U8) : ArpPkt where
  htype := u16At bytes 0
  ptype := u16At bytes 2
  hlen := u8At bytes 4
  plen := u8At bytes 5
  op := u16At bytes 6
  sha := macAt bytes 8
  spa := u32At bytes 14
  tha := macAt bytes 18
  tpa := u32At bytes 24

/-- `arp_lookup`; `none` is the result -1. -/
def arpLookup (cache : Fin 16 → ArpCacheEnt) (ipHost : U32) : Option Mac :=
  ((finRange 16).find? fun i => (cache i).used && (cache i).ip == netHtonl ipHost).map
    fun i => (cache i).mac

/-- `arp_request`. -/
def arpRequest (ipHost : U32) : NetM Int := do
  let stack ← get
  let a : ArpPkt :=
    { htype := netHtons 1, ptype := netHtons ethertypeIpv4, hlen := 6, plen := 4,
      op := netHtons 1, sha := stack.mac, spa := netHtonl stack.ip, tha := fun _ => 0,
      tpa := netHtonl ipHost }
  let frame ← checked .buffer (write (replicate 1518 0) 14 a.bytes)
  etherSend netBcastMac ethertypeArp frame 28

/-- The loop of `arp_cache_add` that looks for a slot, for the entries left. -/
def cacheSlot (cache : Fin 16 → ArpCacheEnt) (spaWire : U32) :
    List (Fin 16) → Option (Fin 16) → Option (Fin 16)
  | [], slot => slot
  | i :: rest, slot =>
      if (cache i).used ∧ (cache i).ip = spaWire then
        some i
      else if (cache i).used = false ∧ slot = none then
        cacheSlot cache spaWire rest (some i)
      else
        cacheSlot cache spaWire rest slot

/-- `arp_cache_add`. -/
def arpCacheAdd (sha : Mac) (spaWire : U32) : NetM Unit := do
  let stack ← get
  match cacheSlot stack.cache spaWire (finRange 16) none with
  | none => return ()
  | some slot =>
      let stamp ← tscMs
      modify fun stack =>
        { stack with
          cache := Function.update stack.cache slot
            { ip := spaWire, mac := sha, stamp, used := true } }

/-- `arp_rx`: `pkt` is the memory from the pointer to the end of the frame buffer. -/
def arpRx (pkt : List U8) (len : Nat) : NetM Unit := do
  if len < 28 then
    return ()
  let a := ArpPkt.ofBytes (← checked .frame (read pkt 0 28))
  if netHtons a.ptype ≠ ethertypeIpv4 then
    return ()
  arpCacheAdd a.sha a.spa
  let stack ← get
  if netHtons a.op = 1 ∧ netHtonl a.tpa = stack.ip then
    let reply : ArpPkt :=
      { a with op := netHtons 2, tha := a.sha, sha := stack.mac, spa := a.tpa, tpa := a.spa }
    let pkt ← checked .frame (write pkt 0 reply.bytes)
    let _ ← etherSend a.sha ethertypeArp pkt 28

/-! ## IPv4 -/

/-- `struct ipv4_hdr`. -/
structure Ipv4Hdr where
  verIhl : U8
  tos : U8
  totalLen : U16
  id : U16
  flagsFrag : U16
  ttl : U8
  proto : U8
  checksum : U16
  src : U32
  dst : U32

def Ipv4Hdr.bytes (h : Ipv4Hdr) : List U8 :=
  [h.verIhl] ++ ([h.tos] ++ (toBytes 2 h.totalLen ++ (toBytes 2 h.id ++ (toBytes 2 h.flagsFrag ++
    ([h.ttl] ++ ([h.proto] ++ (toBytes 2 h.checksum ++ (toBytes 4 h.src ++ toBytes 4 h.dst))))))))

def Ipv4Hdr.ofBytes (bytes : List U8) : Ipv4Hdr where
  verIhl := u8At bytes 0
  tos := u8At bytes 1
  totalLen := u16At bytes 2
  id := u16At bytes 4
  flagsFrag := u16At bytes 6
  ttl := u8At bytes 8
  proto := u8At bytes 9
  checksum := u16At bytes 10
  src := u32At bytes 12
  dst := u32At bytes 16

/-- The two loops that add the 16-bit words of some bytes to `sum`. -/
def addWords (sum : U32) : List U8 → U32
  | high :: low :: rest =>
      addWords (sum + ((high.setWidth 32 <<< 8) ||| low.setWidth 32)) rest
  | [high] => sum + (high.setWidth 32 <<< 8)
  | [] => sum

/-- `while (sum >> 16)`, with a bound on its rounds. -/
def foldLoop : Nat → U32 → U32
  | 0, sum => sum
  | fuel + 1, sum =>
      if sum >>> 16 = 0 then sum else foldLoop fuel ((sum &&& (0xffff : U32)) + (sum >>> 16))

/-- The loop that adds the carries. -/
def foldSum (sum : U32) : U32 :=
  foldLoop 3 sum

/-- `ip_checksum` of these bytes. -/
def ipChecksum (bytes : List U8) : U16 :=
  netHtons ((~~~ foldSum (addWords 0 bytes) &&& (0xffff : U32)).setWidth 16)

/-- `hdr_fill`. -/
def hdrFill (srcHost dstHost : U32) (proto : U8) (plen : U16) : Ipv4Hdr :=
  let h : Ipv4Hdr :=
    { verIhl := 0x45, tos := 0, totalLen := netHtons (20 + plen), id := 0,
      flagsFrag := netHtons 0x4000, ttl := 64, proto, checksum := 0,
      src := netHtonl srcHost, dst := netHtonl dstHost }
  { h with checksum := ipChecksum h.bytes }

/-- The local `frame` of `ipv4_send` after the header and the payload are stored. -/
def ipv4Frame (srcIp dstIp : U32) (proto : U8) (payload : List U8)
    (plen : Nat) : NetM (List U8) := do
  let h := hdrFill srcIp dstIp proto (BitVec.ofNat 16 plen)
  let frame ← checked .buffer (write (replicate 1518 0) 14 h.bytes)
  let body ← checked .buffer (read payload 0 plen)
  checked .buffer (write frame 34 body)

/-- `nh` in `ipv4_send`. -/
def nextHop (stack : Stack) (dstIp : U32) : U32 :=
  if (dstIp ^^^ stack.ip) &&& stack.mask ≠ 0 then stack.gw else dstIp

/-- `ipv4_send`: `payload` is the memory from the pointer on. -/
def ipv4Send (dstIp : U32) (proto : U8) (payload : List U8) (plen : Nat) : NetM Int := do
  if 1500 - 20 < plen then
    return -1
  let stack ← get
  if dstIp = 0xffffffff then
    let frame ← ipv4Frame stack.ip dstIp proto payload plen
    etherSend netBcastMac ethertypeIpv4 frame (20 + plen)
  else
    match arpLookup stack.cache (nextHop stack dstIp) with
    | none =>
        let _ ← arpRequest (nextHop stack dstIp)
        let text ← netIpv4Str (nextHop stack dstIp)
        klog "net.ipv4" "arping %s for next hop" [.ofString text]
        return -1
    | some mac =>
        let frame ← ipv4Frame stack.ip dstIp proto payload plen
        etherSend mac ethertypeIpv4 frame (20 + plen)

/-! ## ICMP -/

/-- `struct icmp_hdr`. -/
structure IcmpHdr where
  type : U8
  code : U8
  checksum : U16
  id : U16
  seq : U16

def IcmpHdr.ofBytes (bytes : List U8) : IcmpHdr where
  type := u8At bytes 0
  code := u8At bytes 1
  checksum := u16At bytes 2
  id := u16At bytes 4
  seq := u16At bytes 6

/-- The message of `icmp_rx` about an echo. -/
def logEcho (fmt : String) (srcIpHost : U32) (h : IcmpHdr) : NetM Unit := do
  let text ← netIpv4Str srcIpHost
  klog "net.icmp" fmt
    [.ofString text, .ofU32 ((netHtons h.id).setWidth 32), .ofU32 ((netHtons h.seq).setWidth 32)]

/-- `icmp_rx`. -/
def icmpRx (pkt : List U8) (len : Nat) (srcIpHost : U32) : NetM Unit := do
  if len < 8 then
    return ()
  let h := IcmpHdr.ofBytes (← checked .frame (read pkt 0 8))
  if h.type = 0 then
    logEcho "echo reply from %s (id=%u seq=%u)" srcIpHost h
  else if h.type ≠ 8 then
    return ()
  else
    logEcho "echo request from %s (id=%u seq=%u)" srcIpHost h
    let echo ← checked .frame (read pkt 0 len)
    let reply ← checked .buffer (write (replicate 1500 0) 0 echo)
    let reply ← checked .buffer (write reply 0 [0])
    let reply ← checked .buffer (write reply 2 (toBytes 2 (0 : U16)))
    let sum := ipChecksum (← checked .buffer (read reply 0 len))
    let reply ← checked .buffer (write reply 2 (toBytes 2 sum))
    let _ ← ipv4Send srcIpHost ipProtoIcmp reply len

/-! ## Sending of datagrams -/

/-- `struct udp_hdr`. -/
structure UdpHdr where
  srcPort : U16
  dstPort : U16
  len : U16
  checksum : U16

def UdpHdr.bytes (h : UdpHdr) : List U8 :=
  toBytes 2 h.srcPort ++ (toBytes 2 h.dstPort ++ (toBytes 2 h.len ++ toBytes 2 h.checksum))

def UdpHdr.ofBytes (bytes : List U8) : UdpHdr where
  srcPort := u16At bytes 0
  dstPort := u16At bytes 2
  len := u16At bytes 4
  checksum := u16At bytes 6

/-- `sum` in `udp_send` in front of its loops. -/
def pseudoSum (srcIp dstIp : U32) (total : U16) : U32 :=
  ((srcIp >>> 16) &&& (0xffff : U32)) + (srcIp &&& (0xffff : U32)) +
    ((dstIp >>> 16) &&& (0xffff : U32)) + (dstIp &&& (0xffff : U32)) +
    (netHtons (ipProtoUdp.setWidth 16)).setWidth 32 + (netHtons total).setWidth 32

/-- `total` in `udp_send`. -/
def udpTotal (len : Nat) : Nat :=
  (8 + len) % 2 ^ 32

/-- `seg` when `udp_send` hands it over. -/
def udpSegment (srcIp dstIp : U32) (dstPort srcPort : U16) (data : List U8)
    (len : Nat) : NetM (List U8) := do
  let total := udpTotal len
  let h : UdpHdr :=
    { srcPort := netHtons srcPort, dstPort := netHtons dstPort,
      len := netHtons (BitVec.ofNat 16 total), checksum := 0 }
  let body ← checked .buffer (read data 0 len)
  let seg ← checked .buffer (write (replicate 1500 0) 8 body)
  let seg ← checked .buffer (write seg 0 h.bytes)
  let words ← checked .buffer (read seg 0 total)
  let sum := foldSum (addWords (pseudoSum srcIp dstIp (BitVec.ofNat 16 total)) words)
  let h := { h with checksum := netHtons ((~~~ sum &&& (0xffff : U32)).setWidth 16) }
  checked .buffer (write seg 0 h.bytes)

/-- `src_port` in `udp_send`: a port of its own in the place of 0. -/
def sourcePort (srcPort : U16) : NetM U16 := do
  if srcPort = 0 then
    let ms ← tscMs
    return (0xc000 ^^^ ms.setWidth 32 : U32).setWidth 16
  else
    return srcPort

/-- `udp_send`. -/
def udpSend (dstIp : U32) (dstPort srcPort : U16) (data : List U8)
    (len : Nat) : NetM Int := do
  if 1500 < udpTotal len then
    return -1
  let srcPort ← sourcePort srcPort
  let stack ← get
  let seg ← udpSegment stack.ip dstIp dstPort srcPort data len
  ipv4Send dstIp ipProtoUdp seg (udpTotal len)

/-! ## DHCP -/

/-- `DHCPDISCOVER`. -/
def dhcpDiscover : U8 := 1

/-- `DHCPOFFER`. -/
def dhcpOffer : U8 := 2

/-- `DHCPREQUEST`. -/
def dhcpRequest : U8 := 3

/-- `DHCPACK`. -/
def dhcpAck : U8 := 5

/-- The word at offset 236. -/
def magicCookie : U32 := 0x63825363

/-- `dhcp_start`. -/
def dhcpStart : NetM Unit := do
  let stack ← get
  if stack.dhcp.state ≠ .off then
    return ()
  let xid ← tscMs
  let nextTry ← tscMs
  modify fun stack =>
    { stack with
      dhcp := { stack.dhcp with
        state := .discovering, xid := xid.setWidth 32, nextTryMs := nextTry,
        startedMs := nextTry } }
  klog "net.dhcp" "starting discovery" []

/-- `opt_put`, with `n` options bytes stored behind the header so far. -/
def optPut (pkt : List U8) (n : Nat) (code : U8) (val : List U8) : NetM (List U8 × Nat) := do
  let pkt ← checked .buffer
    (write pkt (240 + n) (code :: .ofNat 8 val.length :: val))
  return (pkt, n + (2 + val.length))

/-- An address option, which is left out for the address 0. -/
def optPutAddress (pkt : List U8) (n : Nat) (code : U8) (host : U32) :
    NetM (List U8 × Nat) := do
  if host = 0 then
    return (pkt, n)
  else
    optPut pkt n code (toBytes 4 (netHtonl host))

/-- The first 240 bytes of a message of `dhcp_send`. -/
def dhcpHeader (stack : Stack) : NetM (List U8) := do
  let pkt ← checked .buffer (write (replicate (240 + 32) 0) 0 [1, 1, 6])
  let pkt ← checked .buffer (write pkt 4 (toBytes 4 (netHtonl stack.dhcp.xid)))
  let pkt ← checked .buffer (write pkt 10 (toBytes 2 (netHtons 0x8000)))
  let pkt ← checked .buffer (write pkt 28 (ofFn stack.mac))
  checked .buffer (write pkt 236 (toBytes 4 (netHtonl magicCookie)))

/-- `dhcp_send`. -/
def dhcpSend (msgtype : U8) (reqIpHost srvHost : U32) : NetM Int := do
  let stack ← get
  let pkt ← dhcpHeader stack
  let (pkt, nopt) ← optPut pkt 0 53 [msgtype]
  let (pkt, nopt) ← optPutAddress pkt nopt 50 reqIpHost
  let (pkt, nopt) ← optPutAddress pkt nopt 54 srvHost
  let pkt ← checked .buffer (write pkt (240 + nopt) [0xff])
  udpSend 0xffffffff 67 68 pkt (240 + (nopt + 1))

/-- What `opt_parse` finds. -/
structure DhcpOptions where
  msgtype : U8
  subnet : U32
  router : U32
  srv : U32
deriving DecidableEq

/-- The `switch` of `opt_parse`, for the bytes `v` of an option. -/
def DhcpOptions.take (options : DhcpOptions) (code : U8) (v : List U8) : DhcpOptions :=
  if code = 53 then
    if 1 ≤ v.length then { options with msgtype := u8At v 0 } else options
  else if code = 1 then
    if v.length = 4 then { options with subnet := netHtonl (u32At v 0) } else options
  else if code = 3 then
    if v.length = 4 then { options with router := netHtonl (u32At v 0) } else options
  else if code = 54 then
    if v.length = 4 then { options with srv := netHtonl (u32At v 0) } else options
  else
    options

/-- The loop of `opt_parse`.  Every round moves `i`, so that `len` bounds their number. -/
def optLoop (data : List U8) (len : Nat) : Nat → Nat → DhcpOptions → NetM DhcpOptions
  | 0, _, _ => throw .endlessLoop
  | fuel + 1, i, options => do
      if i < len then
        let code := u8At (← checked .frame (read data i 1)) 0
        if code = 0 then
          optLoop data len fuel (i + 1) options
        else if code = 255 then
          return options
        else if len ≤ i + 1 then
          return options
        else
          let l := (u8At (← checked .frame (read data (i + 1) 1)) 0).toNat
          if len < i + 2 + l then
            return options
          else
            let v ← checked .frame (read data (i + 2) l)
            optLoop data len fuel (i + (2 + l)) (options.take code v)
      else
        return options

/-- `opt_parse`. -/
def optParse (data : List U8) (len : Nat) : NetM DhcpOptions :=
  optLoop data len (len + 1) 240 { msgtype := 0, subnet := 0, router := 0, srv := 0 }

/-- The branch of `dhcp_rx` for an offer. -/
def takeOffer (yiaddr srv : U32) : NetM Unit := do
  modify fun stack =>
    { stack with dhcp := { stack.dhcp with offerIp := yiaddr, srvId := srv } }
  let text ← netIpv4Str yiaddr
  klog "net.dhcp" "offer %s - requesting" [.ofString text]
  let _ ← dhcpSend dhcpRequest yiaddr srv
  modify fun stack => { stack with dhcp := { stack.dhcp with state := .requesting } }
  let now ← tscMs
  modify fun stack => { stack with dhcp := { stack.dhcp with nextTryMs := now + 4000 } }

/-- The branch of `dhcp_rx` for an acknowledgement. -/
def takeAck (yiaddr subnet router : U32) : NetM Unit := do
  modify fun stack =>
    { stack with
      ip := if yiaddr ≠ 0 then yiaddr else stack.dhcp.offerIp
      mask := subnet
      gw := router
      dhcp := { stack.dhcp with state := .bound } }
  let stack ← get
  let ip ← netIpv4Str stack.ip
  let mask ← netIpv4Str stack.mask
  let gw ← netIpv4Str stack.gw
  klog "net.dhcp" "bound: ip %s mask %s gw %s" [.ofString ip, .ofString mask, .ofString gw]

/-- `dhcp_rx`, which does not look at the sender. -/
def dhcpRx (_srcIp : U32) (_sport : U16) (data : List U8) (len : Nat) : NetM Unit := do
  if len < 240 + 3 then
    return ()
  let cookie := u32At (← checked .frame (read data 236 4)) 0
  if cookie ≠ netHtonl magicCookie then
    return ()
  let xid := u32At (← checked .frame (read data 4 4)) 0
  let stack ← get
  if xid ≠ netHtonl stack.dhcp.xid then
    return ()
  let yiaddr := netHtonl (u32At (← checked .frame (read data 16 4)) 0)
  let options ← optParse data len
  if stack.dhcp.state = .discovering ∧ options.msgtype = dhcpOffer then
    takeOffer yiaddr options.srv
  else if stack.dhcp.state = .requesting ∧ options.msgtype = dhcpAck then
    takeAck yiaddr options.subnet options.router

/-- The last lines of a branch of `dhcp_poll`. -/
def pollSend (fmt : String) (msgtype : U8) (reqIp srv : U32) (now : U64) : NetM Unit := do
  klog "net.dhcp" fmt []
  let _ ← dhcpSend msgtype reqIp srv
  modify fun stack => { stack with dhcp := { stack.dhcp with nextTryMs := now + 4000 } }

/-- `dhcp_poll`. -/
def dhcpPoll : NetM Unit := do
  let now ← tscMs
  let stack ← get
  if stack.dhcp.state = .off ∨ stack.dhcp.state = .bound then
    return ()
  if now < stack.dhcp.nextTryMs then
    return ()
  if stack.dhcp.state = .discovering then
    pollSend "sending DISCOVER" dhcpDiscover 0 0 now
  else if stack.dhcp.state = .requesting then
    pollSend "sending REQUEST" dhcpRequest stack.dhcp.offerIp stack.dhcp.srvId now

/-! ## Start -/

/-- The initial values of the variables, with the port of `dhcp_init` bound and without a
device. -/
def bootStack : Stack where
  mac := fun i => [0x52, 0x54, 0x00, 0x12, 0x34, 0x56].getD i.val 0
  ip := 0
  mask := 0xffffff00
  gw := 0
  cache := fun _ => { ip := 0, mac := fun _ => 0, stamp := 0, used := false }
  ports := fun i =>
    if i = 0 then { port := 68, fn := some .dhcpRx } else { port := 0, fn := none }
  dhcp := { state := .off, xid := 0, offerIp := 0, srvId := 0, nextTryMs := 0, startedMs := 0 }
  io := {
    netdev := false
    nic := {
      mmio := false
      linkUp := false
      txTail := 0
      txRing := fun _ => { addr := 0, length := 0, cso := 0, cmd := 0, status := 0 }
      txPage := none }
    inputs := fun _ => 0
    taken := 0
    handed := []
    log := [] }

/-! ## Receiving -/

/-- `udp_rx`. -/
def udpRx (pkt : List U8) (len : Nat) (srcIpHost : U32) : NetM Unit := do
  if len < 8 then
    return ()
  let h := UdpHdr.ofBytes (← checked .frame (read pkt 0 8))
  let dport := netHtons h.dstPort
  let ulen := (netHtons h.len).toNat
  if ulen < 8 ∨ len < ulen then
    return ()
  let stack ← get
  match (finRange 8).find? fun i =>
      (stack.ports i).port == dport && (stack.ports i).fn.isSome with
  | none => return ()
  | some i =>
      match (stack.ports i).fn with
      | some .dhcpRx => dhcpRx srcIpHost (netHtons h.srcPort) (pkt.drop 8) (ulen - 8)
      | none => return ()

/-- `ipv4_rx`. -/
def ipv4Rx (pkt : List U8) (len : Nat) : NetM Unit := do
  if len < 20 then
    return ()
  let bytes ← checked .frame (read pkt 0 20)
  let h := Ipv4Hdr.ofBytes bytes
  if h.verIhl >>> 4 ≠ 4 ∨ h.verIhl &&& 0xf ≠ 5 then
    return ()
  let tot := (netHtons h.totalLen).toNat
  if tot < 20 ∨ len < tot then
    return ()
  let stack ← get
  if netHtonl h.dst ≠ stack.ip ∧ ¬ (stack.ip = 0 ∧ netHtonl h.dst = 0xffffffff) then
    return ()
  if ipChecksum bytes ≠ 0 then
    return ()
  if h.proto = ipProtoIcmp then
    icmpRx (pkt.drop 20) (tot - 20) (netHtonl h.src)
  else if h.proto = ipProtoUdp then
    udpRx (pkt.drop 20) (tot - 20) (netHtonl h.src)

/-- `ether_rx` for a buffer with `len` bytes of a frame in it. -/
def etherRx (frame : List U8) (len : Nat) : NetM Unit := do
  if len < 14 + 1 then
    return ()
  let h := EthHdr.ofBytes (← checked .frame (read frame 0 14))
  if netHtons h.type = ethertypeArp then
    arpRx (frame.drop 14) (len - 14)
  else if netHtons h.type = ethertypeIpv4 then
    ipv4Rx ((frame.take len).drop 14) (len - 14)

end XKern.Net
