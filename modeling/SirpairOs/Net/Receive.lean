import SirpairOs.Net.Device

/-! What `kernel/net.c` does with a received frame: the link layer, ARP, ICMP echo and the
DHCP client. The frame lies in a buffer of `NET_PKT_BUF` bytes; what follows its `len` bytes
there is left over from earlier frames. -/
namespace SirpairOs.Net

def be16 (frame : Buffer) (off : Nat) : Nat := Bytes.beNat (frame.slice off 2)

def etypeOf (frame : Buffer) : Nat := be16 frame 12
def ipSrc (frame : Buffer) : Ip := frame.window 26 4
def ipDst (frame : Buffer) : Ip := frame.window 30 4
def ipProto (frame : Buffer) : Nat := (frame.byte 23).toNat
def ipTotLen (frame : Buffer) : Nat := be16 frame 16

/-- `(ip->vhl & 0x0F) * 4` -/
def ipHdrLen (frame : Buffer) : Nat := (frame.byte 14).toNat % 16 * 4

def ipIsBroadcast (dev : NetDev) (ip : Ip) : Bool :=
  ip = ipBroadcast ∨ ip = Bytes.tabulate fun i => dev.ip.byte i ||| ~~~ dev.mask.byte i

def ipIsMulticast (ip : Ip) : Bool := (ip.byte 0).toNat / 16 = 14

structure DhcpOpts where
  mtype : Nat
  server : Ip
  mask : Ip
  gw : Ip
  dns : Ip
  lease : Nat

namespace DhcpOpts

def start : DhcpOpts := ⟨0, Bytes.zero, Bytes.ofList [255, 255, 255, 0], Bytes.zero, Bytes.zero, 0⟩

def note (code : UInt8) (value : List UInt8) (opts : DhcpOpts) : DhcpOpts :=
  if code = 53 ∧ value.length ≥ 1 then { opts with mtype := (value.getD 0 0).toNat }
  else if code = 54 ∧ value.length ≥ 4 then { opts with server := Bytes.ofList value }
  else if code = 1 ∧ value.length ≥ 4 then { opts with mask := Bytes.ofList value }
  else if code = 3 ∧ value.length ≥ 4 then { opts with gw := Bytes.ofList value }
  else if code = 6 ∧ value.length ≥ 4 then { opts with dns := Bytes.ofList value }
  else if code = 51 ∧ value.length ≥ 4 then { opts with lease := Bytes.beNat (value.take 4) }
  else opts

/-- The loop over the options from `o` up to `end`; each round takes a byte at least. -/
def scan : Nat → List UInt8 → DhcpOpts → DhcpOpts
  | 0, _, opts => opts
  | _ + 1, [], opts => opts
  | fuel + 1, code :: rest, opts =>
    if code = 0 then scan fuel rest opts
    else if code = 255 then opts
    else
      match rest with
      | [] => opts
      | olen :: rest =>
        if olen.toNat > rest.length then opts
        else scan fuel (rest.drop olen.toNat) (opts.note code (rest.take olen.toNat))

end DhcpOpts

def yiaddr (d : List UInt8) : Ip := Bytes.ofList (field d 16 4)
def siaddr (d : List UInt8) : Ip := Bytes.ofList (field d 20 4)
def chaddr (d : List UInt8) : Mac := Bytes.ofList (field d 28 6)

/-- The checks of `net_handle_dhcp` before it reads the options. -/
def dhcpAccepts (dev : NetDev) (d : List UInt8) : Bool :=
  d.length ≥ DHCP_OPTS ∧ d.getD 0 0 = 2 ∧ d.getD 1 0 = 1 ∧ d.getD 2 0 = 6 ∧
    Bytes.beNat (field d 4 4) = dev.dhcpXid ∧ Bytes.beNat (field d 236 4) = DHCP_MAGIC ∧
    (chaddr d = Bytes.zero ∨ chaddr d = dev.mac)

def dhcpOpts (d : List UInt8) : DhcpOpts := DhcpOpts.scan d.length (d.drop DHCP_OPTS) .start

/-- The type of the message; without option 53 an address makes it an OFFER. -/
def dhcpType (dev : NetDev) (d : List UInt8) : Nat :=
  if (dhcpOpts d).mtype = 0 ∧ dev.dhcpStage = 1 ∧ yiaddr d ≠ Bytes.zero then 2
  else (dhcpOpts d).mtype

def dhcpServer (d : List UInt8) : Ip :=
  if (dhcpOpts d).server = Bytes.zero then siaddr d else (dhcpOpts d).server

def takeOffer (d : List UInt8) (dev : NetDev) : NetDev :=
  { dev with dhcpOfferIp := yiaddr d, dhcpServerIp := dhcpServer d, dhcpStage := 2 }

def takeAck (d : List UInt8) (dev : NetDev) : NetDev :=
  { dev with
    ip := yiaddr d, mask := (dhcpOpts d).mask, gw := (dhcpOpts d).gw, dns := (dhcpOpts d).dns,
    leaseSec := (dhcpOpts d).lease, dhcpOk := true, dhcpStage := 3 }

/-- `net_handle_dhcp` on the `dlen` bytes `d`. -/
def netHandleDhcp (d : List UInt8) (dev : NetDev) : NetDev :=
  if dhcpAccepts dev d = false then dev
  else if dhcpType dev d = 2 ∧ dev.dhcpStage = 1 then
    let dev := takeOffer d dev
    if dev.dhcpOfferIp ≠ Bytes.zero ∧ dev.dhcpServerIp ≠ Bytes.zero then
      netDhcpSend 3 (some (dev.dhcpOfferIp, dev.dhcpServerIp)) dev
    else dev
  else if dhcpType dev d = 5 ∧ dev.dhcpStage ≥ 2 then takeAck d dev
  else dev

def udpHdrOk (frame : Buffer) (len ihl : Nat) : Bool :=
  ipProto frame = IP_PROTO_UDP ∧ len ≥ ETH_HDR + ihl + UDP_HDR ∧ ipTotLen frame ≥ ihl + UDP_HDR

def udpSport (frame : Buffer) (ihl : Nat) : Nat := be16 frame (ETH_HDR + ihl)
def udpDport (frame : Buffer) (ihl : Nat) : Nat := be16 frame (ETH_HDR + ihl + 2)

def udpIsDhcpToClient (frame : Buffer) (len ihl : Nat) : Bool :=
  udpHdrOk frame len ihl ∧ udpSport frame ihl = DHCP_SERVER_PORT ∧
    udpDport frame ihl = DHCP_CLIENT_PORT

def udpIsDhcpToServer (frame : Buffer) (len ihl : Nat) : Bool :=
  udpHdrOk frame len ihl ∧ udpSport frame ihl = DHCP_CLIENT_PORT ∧
    udpDport frame ihl = DHCP_SERVER_PORT

def udpIsSsdp (frame : Buffer) (len ihl : Nat) : Bool :=
  udpHdrOk frame len ihl ∧ udpDport frame ihl = SSDP_PORT

/-- The payload of the datagram that `net_handle_udp` passes on, if it is sound and for the
DHCP client. -/
def udpPayload (frame : Buffer) (len ihl : Nat) : Option (List UInt8) :=
  if len < ETH_HDR + ihl + UDP_HDR then none
  else
    let iptot := if ETH_HDR + ipTotLen frame > len then len - ETH_HDR else ipTotLen frame
    let udplen := be16 frame (ETH_HDR + ihl + 4)
    if iptot < ihl + UDP_HDR ∨ udplen < UDP_HDR ∨ udplen > iptot - ihl then none
    else if udpSport frame ihl = DHCP_SERVER_PORT ∧ udpDport frame ihl = DHCP_CLIENT_PORT then
      let maxpay := len - (ETH_HDR + ihl + UDP_HDR)
      some (frame.slice (ETH_HDR + ihl + UDP_HDR) (min (udplen - UDP_HDR) maxpay))
    else none

def netHandleUdp (frame : Buffer) (len ihl : Nat) (dev : NetDev) : NetDev :=
  match udpPayload frame len ihl with
  | some d => netHandleDhcp d dev
  | none => dev

def netHandleIcmp (frame : Buffer) (len ihl : Nat) (dev : NetDev) : NetDev :=
  if len < ETH_HDR + ihl + ICMP_ECHO ∨ ipTotLen frame < ihl + ICMP_ECHO then dev
  else if (frame.byte (ETH_HDR + ihl)).toNat = ICMP_ECHO_REQ ∧ ipDst frame = dev.ip then
    (netSendIcmpPkt (frame.window 6 6) dev.ip (ipSrc frame) ICMP_ECHO_REPLY
      (be16 frame (ETH_HDR + ihl + 4)) (be16 frame (ETH_HDR + ihl + 6)) frame
      (ETH_HDR + ihl + ICMP_ECHO) (ipTotLen frame - ihl - ICMP_ECHO) dev).2
  else dev

def netHandleArp (frame : Buffer) (len : Nat) (dev : NetDev) : NetDev :=
  if len < ETH_HDR + ARP_PKT ∨ be16 frame 14 ≠ ARP_HTYPE_ETH ∨ be16 frame 16 ≠ ARP_PTYPE_IPV4 then
    dev
  else if be16 frame 20 = ARP_OP_REQ ∧ frame.window 38 4 = dev.ip then
    (netSendArpReply (frame.window 22 6) (frame.window 28 4) dev).2
  else dev

/-- The addresses whose packets `net_handle_ipv4` takes. -/
def ipForUs (dev : NetDev) (frame : Buffer) (len ihl : Nat) : Bool :=
  ipDst frame = dev.ip ∨ ipProto frame = IP_PROTO_UDP ∧ ipIsBroadcast dev (ipDst frame) ∨
    udpIsDhcpToClient frame len ihl ∨ ipDst frame = ipLoopback

def netHandleIpv4 (frame : Buffer) (len : Nat) (dev : NetDev) : NetDev :=
  let ihl := ipHdrLen frame
  if len < ETH_HDR + IP4_HDR ∨ ihl < IP4_HDR then dev
  else if ipForUs dev frame len ihl = false then dev
  else if ipProto frame = IP_PROTO_UDP then netHandleUdp frame len ihl dev
  else if ipProto frame = IP_PROTO_ICMP then netHandleIcmp frame len ihl dev
  else dev

def netKnownEtype (etype : Nat) : Bool :=
  etype = ETH_TYPE_ARP ∨ etype = ETH_TYPE_IPV4 ∨ etype = ETH_TYPE_VLAN ∨ etype = ETH_TYPE_VLAN_QINQ

structure Received where
  frame : Buffer
  len : Nat

/-- The device may put two bytes in front of the frame. -/
def realign (r : Received) : Received :=
  if netKnownEtype (etypeOf r.frame) = false ∧ r.len ≥ 16 ∧ netKnownEtype (be16 r.frame 14) then
    ⟨r.frame.splice 0 (r.frame.slice 2 (r.len - 2)), r.len - 2⟩
  else r

/-- `net_l2_try_8023_snap_ipv4`. The header is copied behind the LLC bytes, but the frame goes
on starting where it did. -/
def netL2Try8023SnapIpv4 (r : Received) : Received :=
  if r.len ≥ 22 ∧ etypeOf r.frame ≤ 0x05DC ∧
      r.frame.slice 14 8 = [0xAA, 0xAA, 0x03, 0x00, 0x00, 0x00, 0x08, 0x00] then
    ⟨(r.frame.splice 8 (r.frame.slice 0 14)).splice 12 (Bytes.beBytes 2 ETH_TYPE_IPV4), r.len - 8⟩
  else r

def untag : Nat → Received → Received
  | 0, r => r
  | depth + 1, r =>
    if (etypeOf r.frame = ETH_TYPE_VLAN ∨ etypeOf r.frame = ETH_TYPE_VLAN_QINQ) ∧ r.len ≥ 18 then
      untag depth ⟨(r.frame.splice 14 (r.frame.slice 18 (r.len - 18))).splice 12
        (Bytes.beBytes 2 (be16 r.frame 16)), r.len - 4⟩
    else r

/-- What the link layer hands on. -/
def unwrap (r : Received) : Received := untag 4 (netL2Try8023SnapIpv4 (realign r))

/-- A router is learned from its SSDP messages. -/
def learnHint (r : Received) (dev : NetDev) : NetDev :=
  let ihl := ipHdrLen r.frame
  if etypeOf r.frame = ETH_TYPE_IPV4 ∧ r.len ≥ ETH_HDR + IP4_HDR ∧ ihl ≥ IP4_HDR ∧
      (ipIsMulticast (ipDst r.frame) ∨ ipIsBroadcast dev (ipDst r.frame)) ∧
      ipSrc r.frame ≠ Bytes.zero ∧ udpIsSsdp r.frame r.len ihl ∧
      udpIsDhcpToServer r.frame r.len ihl = false ∧ udpIsDhcpToClient r.frame r.len ihl = false then
    { dev with dhcpHintIp := ipSrc r.frame, dhcpHintMac := r.frame.window 6 6 }
  else dev

/-- Only the hints about a router are learned. -/
theorem learnHint_eq (r : Received) (dev : NetDev) :
    ∃ ip mac, learnHint r dev = { dev with dhcpHintIp := ip, dhcpHintMac := mac } := by
  unfold learnHint
  dsimp only
  split
  · exact ⟨_, _, rfl⟩
  · exact ⟨dev.dhcpHintIp, dev.dhcpHintMac, rfl⟩

def netProcessFrame (r : Received) (dev : NetDev) : NetDev :=
  if r.len < ETH_HDR then dev
  else
    let r := unwrap r
    let etype := etypeOf r.frame
    if etype = ETH_TYPE_LLDP ∨ etype = ETH_TYPE_IPV6 ∨ etype = ETH_TYPE_L2_VENDOR_LOOP then dev
    else
      let dev := learnHint r dev
      if etype = ETH_TYPE_ARP then netHandleArp r.frame r.len dev
      else if etype = ETH_TYPE_IPV4 then netHandleIpv4 r.frame r.len dev
      else dev

theorem netProcessFrame_ipv4 {r : Received} (header : ETH_HDR ≤ r.len)
    (etype : etypeOf (unwrap r).frame = ETH_TYPE_IPV4) (dev : NetDev) : netProcessFrame r dev =
      netHandleIpv4 (unwrap r).frame (unwrap r).len (learnHint (unwrap r) dev) := by
  unfold netProcessFrame
  dsimp only
  rw [if_neg (by omega), etype, if_neg (by decide), if_neg (by decide), if_pos rfl]

def dhcpReset (ticks : Nat) (dev : NetDev) : NetDev :=
  { dev with
    dhcpXid := DHCP_XID_BASE ^^^ ticks % 2 ^ 32 ^^^ ((dev.mac.byte 3).toNat * 256) ^^^
      (dev.mac.byte 5).toNat
    dhcpStage := 1, dhcpOk := false, dhcpOfferIp := Bytes.zero, dhcpServerIp := Bytes.zero }

/-- The start of an acquisition: a new transaction, and a DISCOVER. -/
def netDhcpBegin (ticks : Nat) (dev : NetDev) : NetDev := netDhcpSend 1 none (dhcpReset ticks dev)

/-- What the loop sends when nothing has been sent for a while. -/
def netDhcpRetry (dev : NetDev) : NetDev :=
  if dev.dhcpStage = 1 then
    let dev := netDhcpSend 1 none dev
    if dev.dhcpDiscoverTx ≥ 5 ∧ dev.dhcpHintMac ≠ Bytes.zero ∧ dev.dhcpHintIp ≠ Bytes.zero then
      netDhcpSendTo dev.dhcpHintMac ipBroadcast 1 none dev
    else dev
  else if dev.dhcpStage = 2 ∧ dev.dhcpOfferIp ≠ Bytes.zero ∧ dev.dhcpServerIp ≠ Bytes.zero then
    netDhcpSend 3 (some (dev.dhcpOfferIp, dev.dhcpServerIp)) dev
  else dev

inductive Event where
  /-- `net_poll` takes a frame out of the queue. -/
  | frame (r : Received)
  /-- More than 100 ticks have passed. -/
  | retry

def Event.step : Event → NetDev → NetDev
  | frame r, dev => netProcessFrame r dev
  | retry, dev => netDhcpRetry dev

/-- The loops of `net_dhcp_acquire`: everything that happens, one after the other. -/
def netDhcpRun (events : List Event) (dev : NetDev) : NetDev :=
  events.foldl (fun dev event => event.step dev) dev

end SirpairOs.Net
