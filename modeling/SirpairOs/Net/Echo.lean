import SirpairOs.Net.Receive

/-! What a received frame makes the device send, and on which bytes of the buffer it depends.
Only the length that the IP header of an echo request claims is not checked against the
length of the frame. -/
namespace SirpairOs.Net

def Agree (n : Nat) (a b : Buffer) : Prop := ∀ i < n, a.byte i = b.byte i

namespace Agree

variable {n : Nat} {a b : Buffer} (agree : Agree n a b)

include agree

theorem slice {off len : Nat} (inside : off + len ≤ n) : a.slice off len = b.slice off len :=
  Bytes.slice_congr fun i small => agree (off + i) (by omega)

theorem window {off len : Nat} (inside : off + len ≤ n) : a.window off len = b.window off len :=
  Bytes.window_congr fun i small => agree (off + i) (by omega)

theorem be16 {off : Nat} (inside : off + 2 ≤ n) : be16 a off = be16 b off := by
  rw [Net.be16, agree.slice inside, Net.be16]

theorem splice {m off : Nat} {src : List UInt8}
    (kept : ∀ i < m, i < off ∨ off + src.length ≤ i → i < n) :
    Agree m (a.splice off src) (b.splice off src) := by
  intro i small
  by_cases outside : i < off ∨ off + src.length ≤ i
  · rw [Bytes.byte_splice_outside _ _ _ _ outside, Bytes.byte_splice_outside _ _ _ _ outside,
      agree i (kept i small outside)]
  · by_cases bound : i < NET_PKT_BUF
    · rw [Bytes.byte_splice_inside _ _ _ _ (by omega) (by omega) bound,
        Bytes.byte_splice_inside _ _ _ _ (by omega) (by omega) bound]
    · rw [Bytes.byte_outside _ _ (by omega), Bytes.byte_outside _ _ (by omega)]

end Agree

/-- Received frames that are the same up to what follows them in their buffers. -/
structure Same (r r' : Received) : Prop where
  len : r'.len = r.len
  agree : Agree r.len r'.frame r.frame

section Link

variable {r r' : Received} (same : Same r r')

include same

theorem Same.etypeOf (header : ETH_HDR ≤ r.len) : etypeOf r'.frame = etypeOf r.frame :=
  same.agree.be16 (by unfold ETH_HDR at header; omega)

theorem Same.realign (header : ETH_HDR ≤ r.len) :
    Same (realign r) (realign r') ∧ ETH_HDR ≤ (realign r).len := by
  have test : (netKnownEtype (Net.etypeOf r'.frame) = false ∧ r'.len ≥ 16 ∧
      netKnownEtype (be16 r'.frame 14)) ↔ (netKnownEtype (Net.etypeOf r.frame) = false ∧ r.len ≥ 16 ∧
      netKnownEtype (be16 r.frame 14)) := by
    rw [same.etypeOf header, same.len]
    refine and_congr_right fun _ => and_congr_right fun long => ?_
    rw [same.agree.be16 (by omega)]
  unfold Net.realign
  by_cases known : netKnownEtype (Net.etypeOf r.frame) = false ∧ r.len ≥ 16 ∧
      netKnownEtype (be16 r.frame 14)
  · rw [if_pos known, if_pos (test.mpr known), same.len, same.agree.slice (by omega)]
    refine ⟨⟨rfl, same.agree.splice fun i small outside => ?_⟩, ?_⟩
    · rw [Bytes.length_slice] at outside
      dsimp only at small
      omega
    · unfold ETH_HDR at *
      dsimp only
      omega
  · rw [if_neg known, if_neg fun other => known (test.mp other)]
    exact ⟨same, header⟩

theorem Same.snap (header : ETH_HDR ≤ r.len) :
    Same (netL2Try8023SnapIpv4 r) (netL2Try8023SnapIpv4 r') ∧
      ETH_HDR ≤ (netL2Try8023SnapIpv4 r).len := by
  have test : (r'.len ≥ 22 ∧ Net.etypeOf r'.frame ≤ 0x05DC ∧ r'.frame.slice 14 8 =
      [0xAA, 0xAA, 0x03, 0x00, 0x00, 0x00, 0x08, 0x00]) ↔ (r.len ≥ 22 ∧
      Net.etypeOf r.frame ≤ 0x05DC ∧ r.frame.slice 14 8 =
      [0xAA, 0xAA, 0x03, 0x00, 0x00, 0x00, 0x08, 0x00]) := by
    rw [same.etypeOf header, same.len]
    refine and_congr_right fun long => ?_
    rw [same.agree.slice (by omega)]
  unfold netL2Try8023SnapIpv4
  split
  · rename_i found
    rw [if_pos (test.mpr found), same.len, same.agree.slice (by omega)]
    have copied : Agree (r.len - 8) (r'.frame.splice 8 (r.frame.slice 0 14))
        (r.frame.splice 8 (r.frame.slice 0 14)) :=
      same.agree.splice fun i small _ => by omega
    refine ⟨⟨rfl, copied.splice fun i small _ => small⟩, ?_⟩
    unfold ETH_HDR
    dsimp only
    omega
  · rename_i absent
    rw [if_neg fun other => absent (test.mp other)]
    exact ⟨same, header⟩

omit same in
theorem Same.untag {depth : Nat} (same : Same r r') (header : ETH_HDR ≤ r.len) :
    Same (untag depth r) (untag depth r') ∧ ETH_HDR ≤ (Net.untag depth r).len := by
  induction depth generalizing r r' with
  | zero => exact ⟨same, header⟩
  | succ depth ih =>
    rw [Net.untag, Net.untag, same.etypeOf header, same.len]
    split
    · rename_i tagged
      refine ih ⟨rfl, ?_⟩ (by unfold ETH_HDR; dsimp only; omega)
      dsimp only
      rw [same.agree.slice (by omega), same.agree.be16 (by omega)]
      have moved : Agree (r.len - 4) (r'.frame.splice 14 (r.frame.slice 18 (r.len - 18)))
          (r.frame.splice 14 (r.frame.slice 18 (r.len - 18))) :=
        same.agree.splice fun i small _ => by omega
      exact moved.splice fun i small _ => small
    · exact ⟨same, header⟩

/-- The link layer looks at nothing behind the frame. -/
theorem Same.unwrap (header : ETH_HDR ≤ r.len) :
    Same (unwrap r) (unwrap r') ∧ ETH_HDR ≤ (Net.unwrap r).len := by
  obtain ⟨aligned, long⟩ := same.realign header
  obtain ⟨plain, long⟩ := aligned.snap long
  exact plain.untag long

end Link

variable (dev : NetDev)

section Handlers

variable {len ihl : Nat} {a b : Buffer} (agree : Agree len a b)

include agree

theorem Agree.header (long : ETH_HDR + IP4_HDR ≤ len) :
    ipSrc a = ipSrc b ∧ ipDst a = ipDst b ∧ ipProto a = ipProto b ∧ ipTotLen a = ipTotLen b ∧
      ipHdrLen a = ipHdrLen b := by
  unfold ETH_HDR IP4_HDR at long
  refine ⟨agree.window (by omega), agree.window (by omega), ?_, agree.be16 (by omega), ?_⟩
  · rw [ipProto, agree 23 (by omega), ipProto]
  · rw [ipHdrLen, agree 14 (by omega), ipHdrLen]

theorem Agree.ports (ihl : Nat) (long : ETH_HDR + ihl + UDP_HDR ≤ len) :
    udpSport a ihl = udpSport b ihl ∧ udpDport a ihl = udpDport b ihl := by
  unfold UDP_HDR at long
  exact ⟨agree.be16 (by omega), agree.be16 (by omega)⟩

theorem Agree.udpHdrOk (long : ETH_HDR + IP4_HDR ≤ len) :
    udpHdrOk a len ihl = udpHdrOk b len ihl := by
  obtain ⟨_, _, proto, total, _⟩ := agree.header long
  rw [Net.udpHdrOk, proto, total, Net.udpHdrOk]

theorem Agree.udpTests (ihl : Nat) (long : ETH_HDR + IP4_HDR ≤ len) :
    udpIsDhcpToClient a len ihl = udpIsDhcpToClient b len ihl ∧
      udpIsDhcpToServer a len ihl = udpIsDhcpToServer b len ihl ∧
      udpIsSsdp a len ihl = udpIsSsdp b len ihl := by
  have ports : Net.udpHdrOk b len ihl →
      udpSport a ihl = udpSport b ihl ∧ udpDport a ihl = udpDport b ihl := by
    intro ok
    simp only [Net.udpHdrOk, decide_eq_true_eq] at ok
    exact agree.ports ihl ok.2.1
  unfold udpIsDhcpToClient udpIsDhcpToServer udpIsSsdp
  rw [agree.udpHdrOk long]
  refine ⟨decide_eq_decide.mpr (and_congr_right fun ok => ?_),
    decide_eq_decide.mpr (and_congr_right fun ok => ?_),
    decide_eq_decide.mpr (and_congr_right fun ok => ?_)⟩
  · rw [(ports ok).1, (ports ok).2]
  · rw [(ports ok).1, (ports ok).2]
  · rw [(ports ok).2]

theorem Agree.ipForUs (long : ETH_HDR + IP4_HDR ≤ len) :
    ipForUs dev a len ihl = ipForUs dev b len ihl := by
  obtain ⟨_, dst, proto, _, _⟩ := agree.header long
  rw [Net.ipForUs, dst, proto, (agree.udpTests ihl long).1, Net.ipForUs]

theorem Agree.udpPayload (long : ETH_HDR + IP4_HDR ≤ len) :
    udpPayload a len ihl = udpPayload b len ihl := by
  obtain ⟨_, _, _, total, _⟩ := agree.header long
  unfold Net.udpPayload
  split
  · rfl
  · rename_i enough
    obtain ⟨sport, dport⟩ := agree.ports ihl (by omega)
    rw [total, sport, dport, agree.be16 (by unfold UDP_HDR at enough; omega)]
    dsimp only
    rw [agree.slice (by unfold UDP_HDR at *; omega)]

theorem Agree.netHandleUdp (long : ETH_HDR + IP4_HDR ≤ len) :
    netHandleUdp a len ihl dev = netHandleUdp b len ihl dev := by
  rw [Net.netHandleUdp, agree.udpPayload long, Net.netHandleUdp]

theorem Agree.netHandleArp : netHandleArp a len dev = netHandleArp b len dev := by
  unfold Net.netHandleArp
  by_cases long : len < ETH_HDR + ARP_PKT
  · rw [if_pos (.inl long), if_pos (.inl long)]
  · unfold ETH_HDR ARP_PKT at *
    rw [agree.be16 (by omega), agree.be16 (by omega), agree.be16 (by omega),
      agree.window (by omega), agree.window (by omega), agree.window (by omega)]

end Handlers

theorem Same.learnHint {r r' : Received} (same : Same r r') (header : ETH_HDR ≤ r.len)
    (dev : NetDev) : learnHint r' dev = learnHint r dev := by
  unfold Net.learnHint
  rw [same.len, same.etypeOf header]
  by_cases long : ETH_HDR + IP4_HDR ≤ r.len
  · obtain ⟨src, dst, proto, total, ihl⟩ := same.agree.header long
    obtain ⟨client, server, ssdp⟩ := same.agree.udpTests (ipHdrLen r.frame) long
    dsimp only
    rw [src, dst, ihl, client, server, ssdp,
      same.agree.window (by unfold ETH_HDR IP4_HDR at long; omega)]
  · rw [if_neg fun test => long test.2.1, if_neg fun test => long test.2.1]

/-- The frames that the device hands to the hardware on reception of a frame. -/
def responses (dev : NetDev) (r : Received) : List Frame :=
  (netProcessFrame r dev).sent.drop dev.sent.length

/-- The link layer says IPv4, the IP header says ICMP and the message is an echo reply. -/
def isEchoReply (f : Frame) : Bool :=
  Bytes.beNat (field f 12 2) = ETH_TYPE_IPV4 ∧ field f 23 1 = [UInt8.ofNat IP_PROTO_ICMP] ∧
    field f 34 1 = [UInt8.ofNat ICMP_ECHO_REPLY]

/-- The payload of an ICMP frame without IP options, by the length in its IP header. -/
def icmpPayload (f : Frame) : List UInt8 :=
  field f (ETH_HDR + IP4_HDR + ICMP_ECHO) (Bytes.beNat (field f 16 2) - IP4_HDR - ICMP_ECHO)

theorem arp_not_echoReply (dstMac srcMac : Mac) (rest : Frame) :
    isEchoReply (padded (ethHdr dstMac srcMac ETH_TYPE_ARP ++ rest)) = false := by
  rw [isEchoReply, padded, List.append_assoc, etype_frame]
  exact decide_eq_false fun test => absurd test.1 (by decide)

theorem udp_not_echoReply (dstMac : Mac) (srcIp dstIp : Ip) (sport dport : Nat)
    (payload : List UInt8) (withCsum : Bool) :
    isEchoReply (padded (udpFrame dev dstMac srcIp dstIp sport dport payload withCsum)) = false := by
  rw [isEchoReply, padded, udpFrame, List.append_assoc, List.append_assoc, (field_ipFrame ..).1]
  exact decide_eq_false fun test => absurd test.2.1 (by decide)

section IcmpFrame

variable (dev : NetDev) (dstMac : Mac) (srcIp dstIp : Ip) (ident seq : Nat) (payload : List UInt8)

theorem icmp_isEchoReply :
    isEchoReply (padded (icmpFrame dev dstMac srcIp dstIp ICMP_ECHO_REPLY ident seq payload)) := by
  rw [isEchoReply, padded, icmpFrame, List.append_assoc, List.append_assoc, etype_frame,
    (field_ipFrame ..).1, show 34 = ETH_HDR + IP4_HDR from rfl, field_frame,
    field_append_right (Nat.le_of_eq (length_ip4Hdr ..)), length_ip4Hdr]
  exact decide_eq_true ⟨rfl, rfl, rfl⟩

theorem icmpPayload_icmpFrame (small : payload.length ≤ NET_MTU) :
    icmpPayload (padded (icmpFrame dev dstMac srcIp dstIp ICMP_ECHO_REPLY ident seq payload)) =
      payload := by
  have size := length_ip4Hdr (IP4_HDR + (ICMP_ECHO + payload.length)) (dev.tcpIsn % 2 ^ 16)
    IP_PROTO_ICMP srcIp dstIp
  have total : (IP4_HDR + (ICMP_ECHO + payload.length)) % 256 ^ 2 =
      IP4_HDR + (ICMP_ECHO + payload.length) :=
    Nat.mod_eq_of_lt (by unfold NET_MTU at small; unfold IP4_HDR ICMP_ECHO; omega)
  rw [icmpPayload, padded, icmpFrame, List.append_assoc, List.append_assoc, (field_ipFrame ..).2,
    total, Nat.add_assoc, field_frame,
    field_append_right (by omega), size, Nat.add_sub_cancel_left, Nat.add_sub_cancel_left,
    Nat.add_sub_cancel_left, icmp, icmpWith, List.append_assoc]
  change field (payload ++ _) 0 payload.length = payload
  exact (field_append_left (Nat.le_of_eq (Nat.zero_add _))).trans (field_whole payload)

end IcmpFrame

/-- Is the IPv4 packet an echo request that the device gets to answer? -/
def answers (dev : NetDev) (u : Received) : Bool :=
  let ihl := ipHdrLen u.frame
  ETH_HDR + IP4_HDR ≤ u.len ∧ IP4_HDR ≤ ihl ∧ ipDst u.frame = dev.ip ∧
    ipProto u.frame = IP_PROTO_ICMP ∧ ETH_HDR + ihl + ICMP_ECHO ≤ u.len ∧
    ihl + ICMP_ECHO ≤ ipTotLen u.frame ∧ (u.frame.byte (ETH_HDR + ihl)).toNat = ICMP_ECHO_REQ ∧
    ipTotLen u.frame - ihl - ICMP_ECHO ≤ NET_MTU ∧ dev.initialized ∧ dev.room dev.tries

def echoes (dev : NetDev) (r : Received) : Bool :=
  ETH_HDR ≤ r.len ∧ etypeOf (unwrap r).frame = ETH_TYPE_IPV4 ∧ answers dev (unwrap r)

def echoReply (dev : NetDev) (u : Received) : Frame :=
  let ihl := ipHdrLen u.frame
  icmpFrame dev (u.frame.window 6 6) dev.ip (ipSrc u.frame) ICMP_ECHO_REPLY
    (be16 u.frame (ETH_HDR + ihl + 4)) (be16 u.frame (ETH_HDR + ihl + 6))
    (u.frame.slice (ETH_HDR + ihl + ICMP_ECHO) (ipTotLen u.frame - ihl - ICMP_ECHO))

theorem isEchoReply_echoReply (u : Received) : isEchoReply (padded (echoReply dev u)) :=
  icmp_isEchoReply ..

theorem icmpPayload_echoReply (u : Received)
    (small : ipTotLen u.frame - ipHdrLen u.frame - ICMP_ECHO ≤ NET_MTU) :
    icmpPayload (padded (echoReply dev u)) = u.frame.slice (ETH_HDR + ipHdrLen u.frame + ICMP_ECHO)
        (ipTotLen u.frame - ipHdrLen u.frame - ICMP_ECHO) :=
  icmpPayload_icmpFrame _ _ _ _ _ _ _ (by rwa [Bytes.length_slice])

/-- The payload of an echo request as far as the received frame contains it. -/
def payloadIn (u : Received) : List UInt8 :=
  let start := ETH_HDR + ipHdrLen u.frame + ICMP_ECHO
  u.frame.slice start (min (ETH_HDR + ipTotLen u.frame) u.len - start)

theorem length_icmpFrame (dstMac : Mac) (srcIp dstIp : Ip) (type ident seq : Nat)
    (payload : List UInt8) : (icmpFrame dev dstMac srcIp dstIp type ident seq payload).length =
      ETH_HDR + (IP4_HDR + (ICMP_ECHO + payload.length)) := by
  simp only [icmpFrame, icmp, icmpWith, List.length_append, length_ethHdr, length_ip4Hdr,
    Bytes.length_beBytes, List.length_cons, List.length_nil, ICMP_ECHO]
  omega

/-- The effect of `net_send_icmp_pkt` depends on the payload only when the frame goes out. -/
theorem netSendIcmpPkt_congr {dstMac : Mac} {srcIp dstIp : Ip} {type ident seq : Nat} {a b : Buffer}
    {off payloadLen : Nat} {dev : NetDev}
    (same : payloadLen ≤ NET_MTU → dev.initialized → dev.room dev.tries →
      a.slice off payloadLen = b.slice off payloadLen) :
    netSendIcmpPkt dstMac srcIp dstIp type ident seq a off payloadLen dev =
      netSendIcmpPkt dstMac srcIp dstIp type ident seq b off payloadLen dev := by
  unfold netSendIcmpPkt
  split
  · rfl
  · rename_i small
    unfold netTxRaw
    simp only [length_icmpFrame, Bytes.length_slice]
    split
    · rfl
    · rename_i up
      split
      · rename_i free
        rw [same (by omega) (by simpa using fun off => up (.inl off)) free]
      · rfl

/-- No echo reply is among the frames sent between two states. -/
def Quiet (dev dev' : NetDev) : Prop :=
  ∃ frames, dev'.sent = dev.sent ++ frames ∧ ∀ f ∈ frames, isEchoReply f = false

namespace Quiet

theorem of_sent_eq {dev dev' : NetDev} (same : dev'.sent = dev.sent) : Quiet dev dev' :=
  ⟨[], by rw [same, List.append_nil], fun _ member => absurd member List.not_mem_nil⟩

theorem refl : Quiet dev dev := of_sent_eq rfl

theorem trans {a b c : NetDev} (first : Quiet a b) (second : Quiet b c) : Quiet a c := by
  obtain ⟨frames, sent, quiet⟩ := first
  obtain ⟨frames', sent', quiet'⟩ := second
  refine ⟨frames ++ frames', by rw [sent', sent, List.append_assoc], fun f member => ?_⟩
  exact (List.mem_append.mp member).elim (quiet f) (quiet' f)

theorem of_sends {dev dev' : NetDev} (sends : Sends (fun f => isEchoReply f = false) dev dev') :
    Quiet dev dev' := by
  obtain ⟨_, _, frames, rfl, others⟩ := sends
  exact ⟨frames, rfl, others⟩

theorem netHandleDhcp (d : List UInt8) (dev : NetDev) : Quiet dev (netHandleDhcp d dev) := by
  have taken : Quiet dev (takeOffer d dev) := of_sent_eq rfl
  unfold Net.netHandleDhcp
  split
  · exact refl dev
  · split
    · dsimp only
      split
      · exact taken.trans (of_sends (.netDhcpSendTo fun _ => udp_not_echoReply ..))
      · exact taken
    · split
      · exact of_sent_eq rfl
      · exact refl dev

theorem netHandleUdp (frame : Buffer) (len ihl : Nat) (dev : NetDev) :
    Quiet dev (netHandleUdp frame len ihl dev) := by
  unfold Net.netHandleUdp
  split
  · exact netHandleDhcp ..
  · exact refl dev

theorem netHandleArp (frame : Buffer) (len : Nat) (dev : NetDev) :
    Quiet dev (netHandleArp frame len dev) := by
  unfold Net.netHandleArp
  split
  · exact refl dev
  · split
    · refine of_sends (.netTxRaw ?_)
      simp only [List.append_assoc]
      exact arp_not_echoReply ..
    · exact refl dev

end Quiet

section Ipv4

variable {dev : NetDev} {u : Received}

theorem netHandleIpv4_answers (asked : answers dev u) :
    (netHandleIpv4 u.frame u.len dev).sent = dev.sent ++ [padded (echoReply dev u)] := by
  simp only [answers, decide_eq_true_eq] at asked
  obtain ⟨long, header, dst, proto, enough, total, request, small, up, free⟩ := asked
  have ours : ipForUs dev u.frame u.len (ipHdrLen u.frame) = true := decide_eq_true (.inl dst)
  have fits : ¬ (ipTotLen u.frame - ipHdrLen u.frame - ICMP_ECHO > NET_MTU ∨ ETH_HDR + (IP4_HDR +
      (ICMP_ECHO + (ipTotLen u.frame - ipHdrLen u.frame - ICMP_ECHO))) > NET_PKT_BUF) := by
    unfold ETH_HDR IP4_HDR NET_PKT_BUF
    unfold NET_MTU ICMP_ECHO at *
    omega
  have size := length_icmpFrame dev (u.frame.window 6 6) dev.ip (ipSrc u.frame) ICMP_ECHO_REPLY
    (be16 u.frame (ETH_HDR + ipHdrLen u.frame + 4)) (be16 u.frame (ETH_HDR + ipHdrLen u.frame + 6))
    (u.frame.slice (ETH_HDR + ipHdrLen u.frame + ICMP_ECHO)
      (ipTotLen u.frame - ipHdrLen u.frame - ICMP_ECHO))
  rw [Bytes.length_slice] at size
  have other : ipProto u.frame ≠ IP_PROTO_UDP := by rw [proto]; decide
  unfold netHandleIpv4
  rw [if_neg (by omega), ours, if_neg (by decide), if_neg other, if_pos proto]
  unfold netHandleIcmp
  rw [if_neg (by omega), if_pos ⟨request, dst⟩]
  unfold netSendIcmpPkt
  rw [if_neg fits]
  unfold netTxRaw
  rw [if_neg (by rw [up, size]; unfold ETH_HDR at *; simp; omega)]
  dsimp only
  rw [if_pos free]
  rfl

/-- Nothing else is answered with an echo reply. -/
theorem netHandleIpv4_quiet (silent : answers dev u = false) :
    Quiet dev (netHandleIpv4 u.frame u.len dev) := by
  simp only [answers, decide_eq_false_iff_not] at silent
  unfold netHandleIpv4
  dsimp only
  split
  · exact .refl dev
  split
  · exact .refl dev
  split
  · exact .netHandleUdp ..
  split
  · unfold netHandleIcmp
    split
    · exact .refl dev
    split
    · unfold netSendIcmpPkt
      split
      · exact .refl dev
      · unfold netTxRaw
        split
        · exact .refl dev
        · dsimp only
          split
          · rename_i long _ _ proto enough request fits up free
            refine absurd ⟨by omega, by omega, request.2, proto, by omega, by omega, request.1,
              by omega, ?_, free⟩ silent
            simpa using fun off => up (.inl off)
          · exact .of_sent_eq rfl
    · exact .refl dev
  · exact .refl dev

/-- A packet whose answer stays inside it has the same effect in every buffer. -/
theorem netHandleIpv4_same {b : Buffer} (agree : Agree u.len b u.frame)
    (fits : answers dev u → ETH_HDR + ipTotLen u.frame ≤ u.len) :
    netHandleIpv4 b u.len dev = netHandleIpv4 u.frame u.len dev := by
  unfold netHandleIpv4
  dsimp only
  by_cases long : u.len < ETH_HDR + IP4_HDR
  · rw [if_pos (.inl long), if_pos (.inl long)]
  obtain ⟨src, dst, proto, total, ihl⟩ := agree.header (by omega)
  rw [ihl, proto, agree.ipForUs dev (by omega), agree.netHandleUdp dev (by omega)]
  split
  · rfl
  split
  · rfl
  split
  · rfl
  split
  · rename_i header _ _ icmp
    unfold netHandleIcmp
    rw [total, src, dst]
    split
    · rfl
    · rename_i enough
      unfold ICMP_ECHO at enough
      rw [agree (ETH_HDR + ipHdrLen u.frame) (by omega), agree.be16 (by omega),
        agree.be16 (by omega), agree.window (by unfold ETH_HDR IP4_HDR at long; omega)]
      split
      · rename_i request
        rw [netSendIcmpPkt_congr fun small up free => agree.slice ?_]
        have inside := fits (decide_eq_true ⟨by omega, by omega, request.2, icmp,
          by unfold ICMP_ECHO; omega, by unfold ICMP_ECHO; omega, request.1, small, up, free⟩)
        unfold ICMP_ECHO
        omega
      · rfl
  · rfl

end Ipv4

/-- Hints about a router do not matter to whether and how a request is answered. -/
theorem answers_learnHint (r u : Received) :
    answers (learnHint r dev) u = answers dev u ∧ echoReply (learnHint r dev) u = echoReply dev u ∧
      (learnHint r dev).sent = dev.sent := by
  obtain ⟨ip, mac, learned⟩ := learnHint_eq r dev
  rw [learned]
  exact ⟨rfl, rfl, rfl⟩

section Process

variable {dev : NetDev} {r : Received}

theorem netProcessFrame_answers (asked : echoes dev r) :
    (netProcessFrame r dev).sent = dev.sent ++ [padded (echoReply dev (unwrap r))] := by
  simp only [echoes, decide_eq_true_eq] at asked
  obtain ⟨header, etype, asked⟩ := asked
  obtain ⟨same, reply, sent⟩ := answers_learnHint dev (unwrap r) (unwrap r)
  rw [netProcessFrame_ipv4 header etype, netHandleIpv4_answers (same.trans asked), reply, sent]

theorem netProcessFrame_quiet (silent : echoes dev r = false) : Quiet dev (netProcessFrame r dev) := by
  simp only [echoes, decide_eq_false_iff_not] at silent
  obtain ⟨same, _, sent⟩ := answers_learnHint dev (unwrap r) (unwrap r)
  have learned : Quiet dev (learnHint (unwrap r) dev) := .of_sent_eq sent
  unfold netProcessFrame
  dsimp only
  split
  · exact .refl dev
  split
  · exact .refl dev
  split
  · exact learned.trans (.netHandleArp ..)
  split
  · rename_i header _ _ etype
    refine learned.trans (netHandleIpv4_quiet ?_)
    rw [same]
    exact eq_false_of_ne_true fun asked => silent ⟨by omega, etype, asked⟩
  · exact learned

theorem netProcessFrame_same {b : Buffer} (agree : Agree r.len b r.frame)
    (fits : echoes dev r → ETH_HDR + ipTotLen (unwrap r).frame ≤ (unwrap r).len) :
    netProcessFrame ⟨b, r.len⟩ dev = netProcessFrame r dev := by
  unfold netProcessFrame
  dsimp only
  split
  · rfl
  · rename_i header
    have whole : Same r ⟨b, r.len⟩ := ⟨rfl, agree⟩
    obtain ⟨same, long⟩ := whole.unwrap (by omega)
    rw [same.etypeOf long, same.learnHint long, same.len, same.agree.netHandleArp]
    split
    · rfl
    split
    · rfl
    split
    · rename_i etype
      refine netHandleIpv4_same same.agree fun asked => fits (decide_eq_true ?_)
      rw [(answers_learnHint dev (unwrap r) (unwrap r)).1] at asked
      exact ⟨by omega, etype, asked⟩
    · rfl

end Process

/-- The echo reply to a frame is made of the bytes that were received: whatever follows them in
the buffer the responses are the same, and the payload of an echo reply is that of the request. -/
structure Confined (dev : NetDev) (r : Received) : Prop where
  same : ∀ b, Agree r.len b r.frame → responses dev ⟨b, r.len⟩ = responses dev r
  payload : ∀ f ∈ responses dev r, isEchoReply f → icmpPayload f = payloadIn (unwrap r)

theorem confined_iff (dev : NetDev) (r : Received) : Confined dev r ↔
      (echoes dev r → ETH_HDR + ipTotLen (unwrap r).frame ≤ (unwrap r).len) := by
  constructor
  · intro confined asked
    have sent := netProcessFrame_answers asked
    have only : responses dev r = [padded (echoReply dev (unwrap r))] := by
      rw [responses, sent, List.drop_left]
    simp only [echoes, answers, decide_eq_true_eq] at asked
    obtain ⟨_, _, _, _, _, _, enough, total, _, small, _⟩ := asked
    have claimed := confined.payload _ (by rw [only]; exact List.mem_singleton_self _)
      (isEchoReply_echoReply ..)
    rw [icmpPayload_echoReply _ _ small] at claimed
    have sizes := congrArg List.length claimed
    unfold payloadIn at sizes
    rw [Bytes.length_slice, Bytes.length_slice] at sizes
    omega
  · intro fits
    refine ⟨fun b agree => by rw [responses, netProcessFrame_same agree fits, responses], ?_⟩
    intro f member reply
    cases asked : echoes dev r with
    | false =>
      obtain ⟨frames, sent, quiet⟩ := netProcessFrame_quiet asked
      rw [responses, sent, List.drop_left] at member
      rw [quiet f member] at reply
      cases reply
    | true =>
      have inside := fits asked
      rw [responses, netProcessFrame_answers asked, List.drop_left, List.mem_singleton] at member
      simp only [echoes, answers, decide_eq_true_eq] at asked
      obtain ⟨_, _, _, _, _, _, enough, total, _, small, _⟩ := asked
      rw [member, icmpPayload_echoReply _ _ small, payloadIn, Nat.min_eq_left inside]
      exact congrArg _ (by omega)

/-- An echo request without payload whose IP header claims one byte of it. The byte behind the 42
bytes of the frame is left over from an earlier one. -/
def shortRequest (leftover : UInt8) : Buffer :=
  Bytes.ofList (ethHdr Bytes.zero Bytes.zero ETH_TYPE_IPV4 ++
    ip4Hdr 29 0 IP_PROTO_ICMP (Bytes.ofList [10, 0, 2, 2]) (Bytes.ofList [10, 0, 2, 15]) ++
    icmp ICMP_ECHO_REQ 0 0 [] ++ [leftover])

def answering : NetDev := { NetDev.fresh with ip := Bytes.ofList [10, 0, 2, 15] }

/-- The reply to a frame of 42 bytes gives the byte behind it away. -/
theorem echo_discloses_leftover : Agree 42 (shortRequest 2) (shortRequest 1) ∧
      (responses answering ⟨shortRequest 1, 42⟩).map icmpPayload = [[1]] ∧
      (responses answering ⟨shortRequest 2, 42⟩).map icmpPayload = [[2]] ∧
      ¬ Confined answering ⟨shortRequest 1, 42⟩ := by
  have agree : Agree 42 (shortRequest 2) (shortRequest 1) := by unfold Agree; decide +kernel
  have one : (responses answering ⟨shortRequest 1, 42⟩).map icmpPayload = [[1]] := by decide +kernel
  have two : (responses answering ⟨shortRequest 2, 42⟩).map icmpPayload = [[2]] := by decide +kernel
  refine ⟨agree, one, two, fun confined => ?_⟩
  rw [confined.same (shortRequest 2) agree, one] at two
  exact absurd two (by decide)

end SirpairOs.Net
