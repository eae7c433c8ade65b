import XKern.Klog
import XKern.PackedBytes

namespace XKern.Net

open Libkern PackedBytes List

/-!
# The network device

Model of the sending side of `iokit/IONetFamily`: the driver's `e1000_send`, `netdev_send`
and `ether_send`.  The state of the whole stack is here as well.  A pointer into a
buffer is the list of the bytes from there to the end of the buffer, so that an access
behind them is a fault.  All that comes from outside, the clock, the registers of the
device and new frames, is one stream of inputs.
-/

/-! ## Byte order -/

/-- `NET_HTONS` and `NET_NTOHS`. -/
def netHtons (x : U16) : U16 :=
  ((x &&& 0xff) <<< 8) ||| ((x >>> 8) &&& 0xff)

/-- `NET_HTONL` and `NET_NTOHL`. -/
def netHtonl (x : U32) : U32 :=
  (x >>> 24) ||| ((x &&& 0xff0000) >>> 8) ||| ((x &&& 0xff00) <<< 8) ||| (x <<< 24)

/-! ## Layouts -/

/-- `struct net_mac`. -/
abbrev Mac := Fin 6 → U8

def u8At (bytes : List U8) (offset : Nat) : U8 :=
  bytes.getD offset 0

/-- The 16-bit word at an offset of a record, as the processor loads it. -/
def u16At (bytes : List U8) (offset : Nat) : U16 :=
  ofBytes 16 (part bytes offset 2)

/-- The 32-bit word at an offset of a record, as the processor loads it. -/
def u32At (bytes : List U8) (offset : Nat) : U32 :=
  ofBytes 32 (part bytes offset 4)

def macAt (bytes : List U8) (offset : Nat) : Mac :=
  fun i => bytes.getD (offset + i.val) 0

/-- `struct eth_hdr`. -/
structure EthHdr where
  dst : Mac
  src : Mac
  type : U16

def EthHdr.bytes (h : EthHdr) : List U8 :=
  ofFn h.dst ++ (ofFn h.src ++ toBytes 2 h.type)

def EthHdr.ofBytes (bytes : List U8) : EthHdr where
  dst := macAt bytes 0
  src := macAt bytes 6
  type := u16At bytes 12

/-! ## State -/

/-- `struct arp_cache_ent`; `ip` is in network order. -/
structure ArpCacheEnt where
  ip : U32
  mac : Mac
  stamp : U64
  used : Bool

/-- What `udp_bind` is called with. -/
inductive UdpHandler where
  | dhcpRx
deriving DecidableEq

/-- `struct udp_ent`. -/
structure UdpEnt where
  port : U16
  fn : Option UdpHandler
deriving DecidableEq

/-- The values of `dh_state`. -/
inductive DhState where
  | off
  | discovering
  | requesting
  | bound
deriving DecidableEq

/-- The variables of `dhcp.c`. -/
structure Dhcp where
  state : DhState
  xid : U32
  offerIp : U32
  srvId : U32
  nextTryMs : U64
  startedMs : U64

/-- `struct e1000_tx_desc`. -/
structure TxDesc where
  addr : U64
  length : U16
  cso : U8
  cmd : U8
  status : U8

/-- The page that `e1000_send` copies frames to. -/
structure TxPage where
  phys : U32
  bytes : Fin 4096 → U8

/-- The variables of `e1000.c` that belong to sending; `tx_tail` is always taken modulo
`TX_DESC_COUNT`. -/
structure Nic where
  mmio : Bool
  linkUp : Bool
  txTail : Fin 8
  txRing : Fin 8 → TxDesc
  txPage : Option TxPage

/-- What the stack exchanges with its surroundings: the driver, the stream of inputs
with the number of those that were taken, the frames that `netdev_send` was handed and
the lines of the log. -/
structure Io where
  /-- `g_netdev` is set. -/
  netdev : Bool
  nic : Nic
  inputs : Nat → U64
  taken : Nat
  handed : List (List U8)
  log : List (List U8)

/-- The state of the network stack. -/
structure Stack where
  mac : Mac
  ip : U32
  mask : U32
  gw : U32
  cache : Fin 16 → ArpCacheEnt
  ports : Fin 8 → UdpEnt
  dhcp : Dhcp
  io : Io

/-- What can go wrong in a call. -/
inductive NetFault where
  /-- An access outside of the bytes that were received. -/
  | frame
  /-- An access outside of a buffer of the stack. -/
  | buffer
  /-- A message whose arguments do not match its format. -/
  | format
  | endlessLoop
deriving DecidableEq

/-- Programs of the stack. -/
abbrev NetM := EStateM NetFault Stack

/-- An access that may be outside. -/
def checked {Value : Type} (fault : NetFault) : Option Value → NetM Value
  | some value => pure value
  | none => throw fault

/-- The next input from outside. -/
def input : NetM U64 :=
  modifyGet fun stack =>
    (stack.io.inputs stack.io.taken, { stack with io.taken := stack.io.taken + 1 })

/-- `tsc_ms`. -/
def tscMs : NetM U64 :=
  input

/-- `klog_lvl`. -/
def klogLvl (prio : Int) (driver fmt : String) (args : List VaSlot) : NetM Unit := do
  let ms ← tscMs
  let line ← checked .format
    (klogVlvl prio (literal driver) (ascii fmt) args (ms.setWidth 32))
  modify fun stack => { stack with io.log := stack.io.log ++ [line] }

/-- `klog`. -/
def klog (driver fmt : String) (args : List VaSlot) : NetM Unit :=
  klogLvl klogNotice driver fmt args

/-! ## Addresses as text -/

/-- The digits of a byte in `net_ipv4_str`. -/
def decimalByte (v : U8) : List U8 :=
  (if 100 ≤ v then [0x30 + v / 100] else []) ++
    ((if 10 ≤ v then [0x30 + v / 10 % 10] else []) ++ [0x30 + v % 10])

/-- The digits of the bytes of an address with dots between them. -/
def dotted : List U8 → List U8
  | [] => [0]
  | [v] => decimalByte v ++ [0]
  | v :: rest => decimalByte v ++ (0x2e : U8) :: dotted rest

/-- The characters that `net_ipv4_str` stores. -/
def ipv4Text (ip : U32) : List U8 :=
  dotted [(ip >>> 24).setWidth 8, (ip >>> 16).setWidth 8, (ip >>> 8).setWidth 8, ip.setWidth 8]

/-- `net_ipv4_str` on an array of 16 zero bytes. -/
def netIpv4Str (ip : U32) : NetM (List U8) :=
  checked .buffer (write (replicate 16 0) 0 (ipv4Text ip))

/-! ## Sending -/

/-- `KLOG_WARNING`. -/
def klogWarning : Int := 4

/-- The page of `e1000_send`, from `alloc_page_ident` if there is none yet. -/
def txPage : NetM (Option TxPage) := do
  let stack ← get
  match stack.io.nic.txPage with
  | some page => return some page
  | none =>
      let phys ← input
      if phys.setWidth 32 = (0 : U32) then
        return none
      else
        return some { phys := phys.setWidth 32, bytes := fun _ => 0 }

def txDesc (page : TxPage) (len : Nat) : TxDesc where
  addr := page.phys.setWidth 64
  length := .ofNat 16 len
  cso := 0
  cmd := 0x01 ||| 0x02 ||| 0x08
  status := 0

/-- `e1000_send`.  Whether the device is done before the polling gives up comes from
outside. -/
def e1000Send (frame : List U8) (len : Nat) : NetM Int := do
  let stack ← get
  if stack.io.nic.mmio = false ∨ stack.io.nic.linkUp = false ∨ 2048 - 4 < len then
    return -1
  let tdh ← input
  let tdt := stack.io.nic.txTail
  if (.ofNat 32 (tdt + 1).val) = tdh.setWidth 32 then
    return -1
  match ← txPage with
  | none => return -1
  | some page =>
      let bytes ← checked .frame (read frame 0 len)
      if 4096 < len then
        throw .buffer
      let page : TxPage :=
        { page with bytes := fun i => bytes.getD i.val (page.bytes i) }
      modify fun stack =>
        { stack with
          io.nic.txPage := some page
          io.nic.txRing := Function.update stack.io.nic.txRing tdt (txDesc page len)
          io.nic.txTail := tdt + 1 }
      let done ← input
      if done = 0 then
        klogLvl klogWarning "net.e1000" "tx timeout (dd never set)" []
        return -1
      else
        return 0

/-- `netdev_send`. -/
def netdevSend (frame : List U8) (len : Nat) : NetM Int := do
  modify fun stack => { stack with io.handed := stack.io.handed ++ [frame.take len] }
  let stack ← get
  if stack.io.netdev then
    e1000Send frame len
  else
    return -1

/-- `net_bcast_mac`. -/
def netBcastMac : Mac :=
  fun _ => 0xff

/-- `ether_send`: `frame` is the memory from the pointer on. -/
def etherSend (dst : Mac) (ethertype : U16) (frame : List U8) (plen : Nat) : NetM Int := do
  let stack ← get
  let h : EthHdr := { dst, src := stack.mac, type := netHtons ethertype }
  let frame ← checked .buffer (write frame 0 h.bytes)
  netdevSend frame (plen + 14)

end XKern.Net
