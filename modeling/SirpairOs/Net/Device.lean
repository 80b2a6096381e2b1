import SirpairOs.Lib.Bytes

/-! The wired network device of `kernel/net.c` and the frames it sends. Of `ndev` the
statistics, the debug output and the fields that are only shown to users are left out. -/
namespace SirpairOs.Net

def NET_PKT_BUF : Nat := 2048
def NET_MTU : Nat := 1500
def DHCP_CLIENT_PORT : Nat := 68
def SSDP_PORT : Nat := 1900
def DHCP_SERVER_PORT : Nat := 67
def DHCP_MIN_PAYLOAD : Nat := 300
def DHCP_MAGIC : Nat := 0x63825363
def DHCP_XID_BASE : Nat := 0x4D435000
def ETH_TYPE_ARP : Nat := 0x0806
def ETH_TYPE_IPV4 : Nat := 0x0800
def ETH_TYPE_VLAN : Nat := 0x8100
def ETH_TYPE_VLAN_QINQ : Nat := 0x88A8
def ETH_TYPE_LLDP : Nat := 0x88cc
def ETH_TYPE_IPV6 : Nat := 0x86dd
def ETH_TYPE_L2_VENDOR_LOOP : Nat := 0xFFFA
def ARP_HTYPE_ETH : Nat := 1
def ARP_PTYPE_IPV4 : Nat := 0x0800
def ARP_OP_REQ : Nat := 1
def ARP_OP_REP : Nat := 2
def IP_PROTO_ICMP : Nat := 1
def IP_PROTO_UDP : Nat := 17
def ICMP_ECHO_REPLY : Nat := 0
def ICMP_ECHO_REQ : Nat := 8

/-- `sizeof(struct eth_hdr)` -/
def ETH_HDR : Nat := 14
/-- `sizeof(struct arp_pkt)` -/
def ARP_PKT : Nat := 28
/-- `sizeof(struct ip4_hdr)` -/
def IP4_HDR : Nat := 20
/-- `sizeof(struct udp_hdr)` -/
def UDP_HDR : Nat := 8
/-- `sizeof(struct icmp_echo)` -/
def ICMP_ECHO : Nat := 8
/-- Where `opts` starts in `struct dhcp_pkt`. -/
def DHCP_OPTS : Nat := 240

abbrev Ip : Type := Bytes 4
abbrev Mac : Type := Bytes 6

abbrev Buffer : Type := Bytes NET_PKT_BUF

abbrev Frame : Type := List UInt8

def field (src : List UInt8) (off len : Nat) : List UInt8 := (src.drop off).take len

theorem field_append_left {src rest : List UInt8} {off len : Nat} (inside : off + len ≤ src.length) :
    field (src ++ rest) off len = field src off len := by
  rw [field, List.drop_append_of_le_length (by omega), List.take_append_of_le_length, field]
  rw [List.length_drop]
  omega

theorem field_append_right {src rest : List UInt8} {off len : Nat} (outside : src.length ≤ off) :
    field (src ++ rest) off len = field rest (off - src.length) len := by
  rw [field, List.drop_append, List.drop_eq_nil_of_le outside, List.nil_append, field]

theorem field_whole (src : List UInt8) : field src 0 src.length = src := by
  rw [field, List.drop_zero, List.take_length]

def ipBroadcast : Ip := Bytes.tabulate fun _ => 255
def macBroadcast : Mac := Bytes.tabulate fun _ => 255
def ipLoopback : Ip := Bytes.ofList [127, 0, 0, 1]

structure NetDev where
  initialized : Bool
  device : Nat
  mac : Mac
  ip : Ip
  gw : Ip
  mask : Ip
  dns : Ip
  leaseSec : Nat
  dhcpOk : Bool
  tcpIsn : Nat
  dhcpXid : Nat
  dhcpStage : Nat
  dhcpOfferIp : Ip
  dhcpServerIp : Ip
  dhcpDiscoverTx : Nat
  dhcpHintIp : Ip
  dhcpHintMac : Mac
  /-- Does the ring get a free descriptor in time for this transmission? -/
  room : Nat → Bool
  /-- Number of transmissions tried so far. -/
  tries : Nat
  /-- The frames handed to the hardware, oldest first. -/
  sent : List Frame

/-- A device that is up and has no address, whose ring always has room. -/
def NetDev.fresh : NetDev where
  initialized := true
  device := 0x10d3
  mac := Bytes.ofList [0x52, 0x54, 0, 0x12, 0x34, 0x56]
  ip := Bytes.zero
  gw := Bytes.zero
  mask := Bytes.zero
  dns := Bytes.zero
  leaseSec := 0
  dhcpOk := false
  tcpIsn := 0
  dhcpXid := 0
  dhcpStage := 0
  dhcpOfferIp := Bytes.zero
  dhcpServerIp := Bytes.zero
  dhcpDiscoverTx := 0
  dhcpHintIp := Bytes.zero
  dhcpHintMac := Bytes.zero
  room _ := true
  tries := 0
  sent := []

/-- The sum of the 16-bit words of a byte string; an odd byte at the end is a high byte. -/
def sumWords : List UInt8 → Nat
  | [] => 0
  | [high] => high.toNat * 256
  | high :: low :: rest => high.toNat * 256 + low.toNat + sumWords rest

/-- `while(sum >> 16) sum = (sum & 0xFFFF) + (sum >> 16);` where `sum` rounds are enough. -/
def foldCarry : Nat → Nat → Nat
  | 0, sum => sum
  | fuel + 1, sum =>
    if sum / 65536 = 0 then sum else foldCarry fuel (sum % 65536 + sum / 65536)

def csum16 (data : List UInt8) : Nat :=
  let sum := sumWords data
  65535 - foldCarry sum sum

/-- `udp_checksum` over the addresses of the IP header and the UDP datagram. The complement
is taken on 32 bits. -/
def udpChecksum (src dst : Ip) (udp : List UInt8) : Nat :=
  let sum := sumWords src.toList + sumWords dst.toList + IP_PROTO_UDP + udp.length + sumWords udp
  let sum := 2 ^ 32 - 1 - foldCarry sum sum
  (if sum = 0 then 0xFFFF else sum) % 2 ^ 16

def padded (data : Frame) : Frame := data ++ List.replicate (60 - data.length) 0

/-- `net_tx_raw`; false is the result `-1`. -/
def netTxRaw (data : Frame) (dev : NetDev) : Bool × NetDev :=
  if dev.initialized = false ∨ data.length = 0 ∨ data.length > NET_PKT_BUF then (false, dev)
  else
    let tried := { dev with tries := dev.tries + 1 }
    if dev.room dev.tries then (true, { tried with sent := dev.sent ++ [padded data] })
    else (false, tried)

def ethHdr (dst src : Mac) (etype : Nat) : Frame :=
  dst.toList ++ src.toList ++ Bytes.beBytes 2 etype

/-- The IP header with a given checksum; `len` is the length of the packet. -/
def ip4HdrWith (csum len id proto : Nat) (src dst : Ip) : Frame :=
  [0x45, 0] ++ Bytes.beBytes 2 len ++ Bytes.beBytes 2 id ++ Bytes.beBytes 2 0x4000 ++
    [64, UInt8.ofNat proto] ++ Bytes.beBytes 2 csum ++ src.toList ++ dst.toList

def ip4Hdr (len id proto : Nat) (src dst : Ip) : Frame :=
  ip4HdrWith (csum16 (ip4HdrWith 0 len id proto src dst)) len id proto src dst

def netSendArpReply (dstMac : Mac) (dstIp : Ip) (dev : NetDev) : Bool × NetDev :=
  netTxRaw (ethHdr dstMac dev.mac ETH_TYPE_ARP ++ Bytes.beBytes 2 ARP_HTYPE_ETH ++
    Bytes.beBytes 2 ARP_PTYPE_IPV4 ++ [6, 4] ++ Bytes.beBytes 2 ARP_OP_REP ++ dev.mac.toList ++
    dev.ip.toList ++ dstMac.toList ++ dstIp.toList) dev

def icmpWith (csum type ident seq : Nat) (payload : List UInt8) : Frame :=
  [UInt8.ofNat type, 0] ++ Bytes.beBytes 2 csum ++ Bytes.beBytes 2 ident ++ Bytes.beBytes 2 seq ++
    payload

def icmp (type ident seq : Nat) (payload : List UInt8) : Frame :=
  icmpWith (csum16 (icmpWith 0 type ident seq payload)) type ident seq payload

def icmpFrame (dev : NetDev) (dstMac : Mac) (srcIp dstIp : Ip) (type ident seq : Nat)
    (payload : List UInt8) : Frame :=
  ethHdr dstMac dev.mac ETH_TYPE_IPV4 ++
    ip4Hdr (IP4_HDR + (ICMP_ECHO + payload.length)) (dev.tcpIsn % 2 ^ 16) IP_PROTO_ICMP srcIp dstIp ++
    icmp type ident seq payload

/-- `net_send_icmp_pkt` with the payload `payload_len` bytes of `frame` from `off` on. -/
def netSendIcmpPkt (dstMac : Mac) (srcIp dstIp : Ip) (type ident seq : Nat) (frame : Buffer)
    (off payloadLen : Nat) (dev : NetDev) : Bool × NetDev :=
  if payloadLen > NET_MTU ∨ ETH_HDR + (IP4_HDR + (ICMP_ECHO + payloadLen)) > NET_PKT_BUF then
    (false, dev)
  else
    netTxRaw (icmpFrame dev dstMac srcIp dstIp type ident seq (frame.slice off payloadLen)) dev

def udpWith (csum sport dport : Nat) (payload : List UInt8) : Frame :=
  Bytes.beBytes 2 sport ++ Bytes.beBytes 2 dport ++ Bytes.beBytes 2 (UDP_HDR + payload.length) ++
    Bytes.beBytes 2 csum ++ payload

def udpFrame (dev : NetDev) (dstMac : Mac) (srcIp dstIp : Ip) (sport dport : Nat)
    (payload : List UInt8) (withCsum : Bool) : Frame :=
  ethHdr dstMac dev.mac ETH_TYPE_IPV4 ++
    ip4Hdr (IP4_HDR + UDP_HDR + payload.length) (dev.tcpIsn % 2 ^ 16) IP_PROTO_UDP srcIp dstIp ++
    udpWith (if withCsum then udpChecksum srcIp dstIp (udpWith 0 sport dport payload) else 0)
      sport dport payload

def netSendUdpPktOpts (dstMac : Mac) (srcIp dstIp : Ip) (sport dport : Nat) (payload : List UInt8)
    (withCsum : Bool) (dev : NetDev) : Bool × NetDev :=
  if payload.length > NET_MTU ∨ ETH_HDR + (IP4_HDR + UDP_HDR + payload.length) > NET_PKT_BUF then
    (false, dev)
  else netTxRaw (udpFrame dev dstMac srcIp dstIp sport dport payload withCsum) dev

def netSendUdpPkt (dstMac : Mac) (srcIp dstIp : Ip) (sport dport : Nat) (payload : List UInt8)
    (dev : NetDev) : Bool × NetDev :=
  netSendUdpPktOpts dstMac srcIp dstIp sport dport payload false dev

def netSendUdpPktCsum (dstMac : Mac) (srcIp dstIp : Ip) (sport dport : Nat) (payload : List UInt8)
    (dev : NetDev) : Bool × NetDev :=
  netSendUdpPktOpts dstMac srcIp dstIp sport dport payload true dev

/-- The options of a message; a REQUEST names an address and a server. -/
def dhcpOptions (dev : NetDev) (msgtype : Nat) (request : Option (Ip × Ip)) : List UInt8 :=
  [53, 1, UInt8.ofNat msgtype] ++ ([61, 7, 1] ++ dev.mac.toList) ++
    [55, 8, 1, 3, 6, 15, 51, 54, 58, 59] ++ [57, 2, 0x05, 0xDC] ++ (match request with
      | some (reqip, server) =>
        if msgtype = 3 then [50, 4] ++ reqip.toList ++ ([54, 4] ++ server.toList) else []
      | none => []) ++ [255]

/-- `struct dhcp_pkt` as it is sent, filled up to the least length. -/
def dhcpPacket (dev : NetDev) (msgtype : Nat) (request : Option (Ip × Ip)) : List UInt8 :=
  let d := [1, 1, 6, 0] ++ Bytes.beBytes 4 dev.dhcpXid ++ [0, 0] ++ Bytes.beBytes 2 0x8000 ++
    List.replicate 16 0 ++ (dev.mac.toList ++ List.replicate 10 0) ++ List.replicate 192 0 ++
    Bytes.beBytes 4 DHCP_MAGIC ++ dhcpOptions dev msgtype request
  d ++ List.replicate (DHCP_MIN_PAYLOAD - d.length) 0

/-- `net_dhcp_send_to`. The old QEMU device gets a second copy, with a checksum. -/
def netDhcpSendTo (dstMac : Mac) (dstIp : Ip) (msgtype : Nat) (request : Option (Ip × Ip))
    (dev : NetDev) : NetDev :=
  let d := dhcpPacket dev msgtype request
  match netSendUdpPkt dstMac Bytes.zero dstIp DHCP_CLIENT_PORT DHCP_SERVER_PORT d dev with
  | (false, dev) => dev
  | (true, dev) =>
    let dev := { dev with dhcpDiscoverTx := dev.dhcpDiscoverTx + if msgtype = 1 then 1 else 0 }
    if dev.device = 0x100e then
      (netSendUdpPktCsum dstMac Bytes.zero dstIp DHCP_CLIENT_PORT DHCP_SERVER_PORT d dev).2
    else dev

def netDhcpSend (msgtype : Nat) (request : Option (Ip × Ip)) (dev : NetDev) : NetDev :=
  netDhcpSendTo macBroadcast ipBroadcast msgtype request dev

variable (dst src : Mac) (etype : Nat)

theorem length_ethHdr : (ethHdr dst src etype).length = ETH_HDR := by
  simp only [ethHdr, List.length_append, Bytes.length_toList, Bytes.length_beBytes, ETH_HDR]

variable (len id proto : Nat)

theorem length_ip4Hdr (src dst : Ip) : (ip4Hdr len id proto src dst).length = IP4_HDR := by
  simp only [ip4Hdr, ip4HdrWith, List.length_append, Bytes.length_toList, Bytes.length_beBytes,
    List.length_cons, List.length_nil, IP4_HDR]

theorem etype_frame (rest : Frame) :
    Bytes.beNat (field (ethHdr dst src etype ++ rest) 12 2) = etype % 256 ^ 2 := by
  have front : (dst.toList ++ src.toList).length = 12 := by
    rw [List.length_append, Bytes.length_toList, Bytes.length_toList]
  have size : (Bytes.beBytes 2 etype).length = 2 := Bytes.length_beBytes 2 etype
  rw [field_append_left (by rw [length_ethHdr]; decide), ethHdr, field_append_right (by omega), front,
    Nat.sub_self, show field (Bytes.beBytes 2 etype) 0 2 = Bytes.beBytes 2 etype from ?_,
    Bytes.beNat_beBytes]
  rw [field, List.drop_zero, List.take_of_length_le (by omega)]

theorem field_ip4Hdr (src dst : Ip) :
    field (ip4Hdr len id proto src dst) 9 1 = [UInt8.ofNat proto] ∧
      Bytes.beNat (field (ip4Hdr len id proto src dst) 2 2) = len % 256 ^ 2 := by
  refine ⟨rfl, ?_⟩
  rw [← Bytes.beNat_beBytes]
  rfl

theorem field_frame (rest : Frame) (off len : Nat) :
    field (ethHdr dst src etype ++ rest) (ETH_HDR + off) len = field rest off len := by
  have size := length_ethHdr dst src etype
  rw [field_append_right (by omega), size, Nat.add_sub_cancel_left]

/-- The protocol of an IP frame, and the length of its packet. -/
theorem field_ipFrame (dstMac srcMac : Mac) (len id proto : Nat) (src dst : Ip) (rest : Frame) :
    field (ethHdr dstMac srcMac ETH_TYPE_IPV4 ++ (ip4Hdr len id proto src dst ++ rest)) 23 1 =
        [UInt8.ofNat proto] ∧ Bytes.beNat (field (ethHdr dstMac srcMac ETH_TYPE_IPV4 ++
        (ip4Hdr len id proto src dst ++ rest)) 16 2) = len % 256 ^ 2 := by
  have size := length_ip4Hdr len id proto src dst
  unfold IP4_HDR at size
  obtain ⟨named, total⟩ := field_ip4Hdr len id proto src dst
  constructor
  · rw [show 23 = ETH_HDR + 9 from rfl, field_frame, field_append_left (by omega), named]
  · rw [show 16 = ETH_HDR + 2 from rfl, field_frame, field_append_left (by omega), total]

theorem netTxRaw_cases (data : Frame) (dev : NetDev) :
    netTxRaw data dev = (false, dev) ∨ netTxRaw data dev = (false, { dev with tries := dev.tries + 1 }) ∨
      netTxRaw data dev =
        (true, { dev with tries := dev.tries + 1, sent := dev.sent ++ [padded data] }) := by
  unfold netTxRaw
  split
  · exact .inl rfl
  · dsimp only
    split
    · exact .inr (.inr rfl)
    · exact .inr (.inl rfl)

/-- Only the ring and the counter of the DISCOVERs are used, and every frame that is sent
satisfies `P`. -/
def Sends (P : Frame → Prop) (dev dev' : NetDev) : Prop :=
  ∃ count tries frames, dev' = { dev with
    dhcpDiscoverTx := count, tries := tries, sent := dev.sent ++ frames } ∧ ∀ f ∈ frames, P f

namespace Sends

variable {P : Frame → Prop} {dev : NetDev}

theorem silent (count tries : Nat) :
    Sends P dev { dev with dhcpDiscoverTx := count, tries := tries } :=
  ⟨count, tries, [], by rw [List.append_nil], fun _ member => absurd member List.not_mem_nil⟩

theorem refl (dev : NetDev) : Sends P dev dev := silent dev.dhcpDiscoverTx dev.tries

theorem trans {a b c : NetDev} (first : Sends P a b) (second : Sends P b c) : Sends P a c := by
  obtain ⟨_, _, frames, rfl, all⟩ := first
  obtain ⟨count, tries, frames', rfl, all'⟩ := second
  refine ⟨count, tries, frames ++ frames', by rw [List.append_assoc], fun f member => ?_⟩
  exact (List.mem_append.mp member).elim (all f) (all' f)

theorem netTxRaw {data : Frame} (sent : P (padded data)) : Sends P dev (netTxRaw data dev).2 := by
  rcases netTxRaw_cases data dev with same | failed | passed
  · rw [same]
    exact refl dev
  · rw [failed]
    exact silent dev.dhcpDiscoverTx (dev.tries + 1)
  · rw [passed]
    exact ⟨_, _, [padded data], rfl, fun f member => by rwa [List.mem_singleton.mp member]⟩

theorem netSendUdpPktOpts {dstMac : Mac} {srcIp dstIp : Ip} {sport dport : Nat}
    {payload : List UInt8} {withCsum : Bool}
    (sent : P (padded (udpFrame dev dstMac srcIp dstIp sport dport payload withCsum))) :
    Sends P dev (netSendUdpPktOpts dstMac srcIp dstIp sport dport payload withCsum dev).2 := by
  unfold Net.netSendUdpPktOpts
  split
  · exact refl dev
  · exact netTxRaw sent

theorem netDhcpSendTo {dstMac : Mac} {dstIp : Ip} {msgtype : Nat} {request : Option (Ip × Ip)}
    (sent : ∀ withCsum, P (padded (udpFrame dev dstMac Bytes.zero dstIp DHCP_CLIENT_PORT
      DHCP_SERVER_PORT (dhcpPacket dev msgtype request) withCsum))) :
    Sends P dev (netDhcpSendTo dstMac dstIp msgtype request dev) := by
  have first := netSendUdpPktOpts (sent false)
  unfold Net.netDhcpSendTo
  dsimp only
  split
  · rename_i failed
    rw [netSendUdpPkt] at failed
    rwa [failed] at first
  · rename_i after passed
    rw [netSendUdpPkt] at passed
    rw [passed] at first
    have counted := first.trans
      (silent (after.dhcpDiscoverTx + if msgtype = 1 then 1 else 0) after.tries)
    split
    · obtain ⟨count, tries, frames, eq, _⟩ := id counted
      refine counted.trans (netSendUdpPktOpts ?_)
      rw [eq]
      exact sent true
    · exact counted

end Sends

end SirpairOs.Net
