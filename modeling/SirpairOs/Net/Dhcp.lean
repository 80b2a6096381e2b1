import SirpairOs.Net.Receive

/-! The DHCP client over a whole acquisition: which OFFER it takes, which REQUESTs it sends and
which ACKs configure it, whatever frames arrive. -/
namespace SirpairOs.Net

/-- The address and the server that a sent frame requests, if it is a REQUEST. The options of the
client stand at fixed places. -/
def requestOf (f : Frame) : Option (Ip × Ip) :=
  if Bytes.beNat (field f 12 2) = ETH_TYPE_IPV4 ∧ field f 23 1 = [UInt8.ofNat IP_PROTO_UDP] ∧
      field f 282 3 = [53, 1, 3] then
    some (Bytes.ofList (field f 310 4), Bytes.ofList (field f 316 4))
  else none

theorem arp_not_request (dstMac srcMac : Mac) (rest : Frame) :
    requestOf (padded (ethHdr dstMac srcMac ETH_TYPE_ARP ++ rest)) = none := by
  rw [requestOf, padded, List.append_assoc, etype_frame]
  exact if_neg fun test => absurd test.1 (by decide)

theorem icmp_not_request (dev : NetDev) (dstMac : Mac) (srcIp dstIp : Ip) (type ident seq : Nat)
    (payload : List UInt8) :
    requestOf (padded (icmpFrame dev dstMac srcIp dstIp type ident seq payload)) = none := by
  rw [requestOf, padded, icmpFrame, List.append_assoc, List.append_assoc, (field_ipFrame ..).1]
  exact if_neg fun test => absurd test.2.1 (by decide)

variable {len off : Nat} {d : List UInt8} {dev dev' start : NetDev} {bad r : Received}
  {events : List Event}

theorem field_udpFrame (dev : NetDev) (dstMac : Mac) (srcIp dstIp : Ip) (sport dport : Nat)
    (payload : List UInt8) (withCsum : Bool) (inside : off + len ≤ payload.length) :
    field (padded (udpFrame dev dstMac srcIp dstIp sport dport payload withCsum)) (42 + off) len =
      field payload off len := by
  have front (csum : Nat) : (Bytes.beBytes 2 sport ++ Bytes.beBytes 2 dport ++
      Bytes.beBytes 2 (UDP_HDR + payload.length) ++ Bytes.beBytes 2 csum).length = 8 := by
    simp only [List.length_append, Bytes.length_beBytes]
  rw [padded, udpFrame, List.append_assoc, List.append_assoc,
    show 42 + off = ETH_HDR + (IP4_HDR + (8 + off)) by unfold ETH_HDR IP4_HDR; omega, field_frame,
    field_append_right (by rw [length_ip4Hdr]; omega), length_ip4Hdr, Nat.add_sub_cancel_left, udpWith,
    List.append_assoc, field_append_right (by rw [front]; omega), front, Nat.add_sub_cancel_left,
    field_append_left inside]

theorem kind_udpFrame (dev : NetDev) (dstMac : Mac) (srcIp dstIp : Ip) (sport dport : Nat)
    (payload : List UInt8) (withCsum : Bool) :
    Bytes.beNat (field (padded (udpFrame dev dstMac srcIp dstIp sport dport payload withCsum)) 12 2) =
        ETH_TYPE_IPV4 ∧
      field (padded (udpFrame dev dstMac srcIp dstIp sport dport payload withCsum)) 23 1 =
        [UInt8.ofNat IP_PROTO_UDP] := by
  rw [padded, udpFrame, List.append_assoc, List.append_assoc, etype_frame, (field_ipFrame ..).1]
  exact ⟨rfl, rfl⟩

theorem field_dhcpPacket (dev : NetDev) (msgtype : Nat) (request : Option (Ip × Ip))
    (inside : off + len ≤ (dhcpOptions dev msgtype request).length) :
    field (dhcpPacket dev msgtype request) (240 + off) len =
        field (dhcpOptions dev msgtype request) off len ∧
      240 + off + len ≤ (dhcpPacket dev msgtype request).length := by
  have front : ([1, 1, 6, 0] ++ Bytes.beBytes 4 dev.dhcpXid ++ [0, 0] ++ Bytes.beBytes 2 0x8000 ++
      List.replicate 16 0 ++ (dev.mac.toList ++ List.replicate 10 0) ++ List.replicate 192 0 ++
      Bytes.beBytes 4 DHCP_MAGIC : List UInt8).length = 240 := by
    simp only [List.length_append, Bytes.length_beBytes, Bytes.length_toList, List.length_replicate,
      List.length_cons, List.length_nil]
  unfold dhcpPacket
  dsimp only
  constructor
  · rw [field_append_left (by rw [List.length_append, front]; omega),
      field_append_right (by rw [front]; omega), front, Nat.add_sub_cancel_left]
  · rw [List.length_append, List.length_append, front]
    omega

/-- The frame of a REQUEST says what it requests. -/
theorem requestOf_request (dev : NetDev) (dstMac : Mac) (dstIp ip server : Ip) (withCsum : Bool) :
    requestOf (padded (udpFrame dev dstMac Bytes.zero dstIp DHCP_CLIENT_PORT DHCP_SERVER_PORT
      (dhcpPacket dev 3 (some (ip, server))) withCsum)) = some (ip, server) := by
  have size : (dhcpOptions dev 3 (some (ip, server))).length = 39 := rfl
  obtain ⟨type, fits⟩ := field_dhcpPacket dev 3 (some (ip, server)) (show 0 + 3 ≤ _ by omega)
  obtain ⟨address, fits'⟩ := field_dhcpPacket dev 3 (some (ip, server)) (show 28 + 4 ≤ _ by omega)
  obtain ⟨name, fits''⟩ := field_dhcpPacket dev 3 (some (ip, server)) (show 34 + 4 ≤ _ by omega)
  obtain ⟨etype, proto⟩ := kind_udpFrame dev dstMac Bytes.zero dstIp DHCP_CLIENT_PORT
    DHCP_SERVER_PORT (dhcpPacket dev 3 (some (ip, server))) withCsum
  rw [requestOf, etype, proto, field_udpFrame _ _ _ _ _ _ _ _ (show 240 + 3 ≤ _ from fits),
    field_udpFrame _ _ _ _ _ _ _ _ (show 268 + 4 ≤ _ from fits'),
    field_udpFrame _ _ _ _ _ _ _ _ (show 274 + 4 ≤ _ from fits''), type, address, name,
    if_pos ⟨rfl, rfl, rfl⟩]
  exact congrArg some (Prod.ext (Bytes.ofList_toList ip) (Bytes.ofList_toList server))

theorem discover_not_request (dev : NetDev) (dstMac : Mac) (dstIp : Ip) (withCsum : Bool) :
    requestOf (padded (udpFrame dev dstMac Bytes.zero dstIp DHCP_CLIENT_PORT DHCP_SERVER_PORT
      (dhcpPacket dev 1 none) withCsum)) = none := by
  have size : (dhcpOptions dev 1 none).length = 27 := rfl
  obtain ⟨type, fits⟩ := field_dhcpPacket dev 1 none (show 0 + 3 ≤ _ by omega)
  rw [requestOf, field_udpFrame _ _ _ _ _ _ _ _ (show 240 + 3 ≤ _ from fits), type]
  exact if_neg fun test => absurd (show ([53, 1, 1] : List UInt8) = [53, 1, 3] from test.2.2) (by decide)

/-- The DHCP message that a frame brings to the client. -/
def dhcpIn (dev : NetDev) (r : Received) : Option (List UInt8) :=
  let u := unwrap r
  let ihl := ipHdrLen u.frame
  if ETH_HDR ≤ r.len ∧ etypeOf u.frame = ETH_TYPE_IPV4 ∧ ETH_HDR + IP4_HDR ≤ u.len ∧ IP4_HDR ≤ ihl ∧
      ipForUs dev u.frame u.len ihl ∧ ipProto u.frame = IP_PROTO_UDP then
    udpPayload u.frame u.len ihl
  else none

theorem ports_of_udpPayload {frame : Buffer} {ihl : Nat}
    (found : udpPayload frame len ihl = some d) :
    udpSport frame ihl = DHCP_SERVER_PORT ∧ udpDport frame ihl = DHCP_CLIENT_PORT := by
  unfold udpPayload at found
  split at found
  · cases found
  dsimp only at found
  generalize (if ETH_HDR + ipTotLen frame > len then len - ETH_HDR else ipTotLen frame) = iptot at found
  split at found
  · cases found
  split at found
  · assumption
  · cases found

/-- A message for the client is no SSDP message. -/
theorem learnHint_of_udpPayload {u : Received} (dev : NetDev)
    (found : udpPayload u.frame u.len (ipHdrLen u.frame) = some d) : learnHint u dev = dev := by
  obtain ⟨_, dport⟩ := ports_of_udpPayload found
  unfold learnHint
  refine if_neg fun test => ?_
  have ssdp := test.2.2.2.2.2.1
  simp only [udpIsSsdp, decide_eq_true_eq, dport] at ssdp
  exact absurd ssdp.2 (by decide)

theorem netProcessFrame_dhcp (found : dhcpIn dev r = some d) :
    netProcessFrame r dev = netHandleDhcp d dev := by
  unfold dhcpIn at found
  dsimp only at found
  split at found
  · rename_i path
    obtain ⟨header, etype, long, ihl, ours, proto⟩ := path
    rw [netProcessFrame_ipv4 header etype, learnHint_of_udpPayload dev found, netHandleIpv4,
      if_neg (by omega), ours, if_neg Bool.noConfusion, if_pos proto, netHandleUdp, found]
  · cases found

/-- A frame that brings no message leaves the client alone. -/
theorem netProcessFrame_aside (absent : dhcpIn dev r = none) :
    ∃ ip mac, Sends (fun f => requestOf f = none)
      { dev with dhcpHintIp := ip, dhcpHintMac := mac } (netProcessFrame r dev) := by
  obtain ⟨ip, mac, learned⟩ := learnHint_eq (unwrap r) dev
  have unheard : ∃ ip mac, Sends (fun f => requestOf f = none)
      { dev with dhcpHintIp := ip, dhcpHintMac := mac } dev :=
    ⟨dev.dhcpHintIp, dev.dhcpHintMac, .refl dev⟩
  unfold netProcessFrame
  dsimp only
  split
  · exact unheard
  split
  · exact unheard
  refine ⟨ip, mac, ?_⟩
  rw [learned]
  split
  · unfold netHandleArp
    split
    · exact .refl _
    split
    · refine .netTxRaw ?_
      simp only [List.append_assoc]
      exact arp_not_request ..
    · exact .refl _
  split
  · rename_i header _ _ etype
    unfold netHandleIpv4
    dsimp only
    split
    · exact .refl _
    split
    · exact .refl _
    split
    · rename_i long ours proto
      have taken : ipForUs dev (unwrap r).frame (unwrap r).len (ipHdrLen (unwrap r).frame) :=
        eq_true_of_ne_false ours
      have same : dhcpIn dev r =
          udpPayload (unwrap r).frame (unwrap r).len (ipHdrLen (unwrap r).frame) :=
        if_pos ⟨by omega, etype, by omega, by omega, taken, proto⟩
      rw [netHandleUdp, ← same, absent]
      exact .refl _
    split
    · unfold netHandleIcmp
      split
      · exact .refl _
      split
      · unfold netSendIcmpPkt
        split
        · exact .refl _
        · exact .netTxRaw (icmp_not_request ..)
      · exact .refl _
    · exact .refl _
  · exact .refl _

/-- The message is an OFFER that the client waits for. -/
def takesOffer (dev : NetDev) (d : List UInt8) : Bool :=
  dhcpAccepts dev d ∧ dhcpType dev d = 2 ∧ dev.dhcpStage = 1

/-- The message is an ACK, and the client has taken an OFFER. -/
def takesAck (dev : NetDev) (d : List UInt8) : Bool :=
  dhcpAccepts dev d ∧ dhcpType dev d = 5 ∧ dev.dhcpStage ≥ 2

def offerIn (dev : NetDev) (r : Received) : Option (List UInt8) := (dhcpIn dev r).filter (takesOffer dev)
def ackIn (dev : NetDev) (r : Received) : Option (List UInt8) := (dhcpIn dev r).filter (takesAck dev)

theorem ackIn_eq_some :
    ackIn dev r = some d ↔ dhcpIn dev r = some d ∧ takesAck dev d := Option.filter_eq_some_iff

theorem offerIn_eq_some :
    offerIn dev r = some d ↔ dhcpIn dev r = some d ∧ takesOffer dev d := Option.filter_eq_some_iff

theorem takesOffer_busy (busy : dev.dhcpStage ≠ 1) (d : List UInt8) :
    takesOffer dev d = false := decide_eq_false fun test => busy test.2.2

theorem takesAck_other (other : dhcpType dev d ≠ 5) :
    takesAck dev d = false := decide_eq_false fun test => other test.2.1

theorem netHandleDhcp_ack (takes : takesAck dev d) : netHandleDhcp d dev = takeAck d dev := by
  simp only [takesAck, decide_eq_true_eq] at takes
  obtain ⟨accepts, type, stage⟩ := takes
  unfold netHandleDhcp
  rw [accepts, if_neg Bool.noConfusion, if_neg (by omega), if_pos ⟨type, stage⟩]

theorem netHandleDhcp_other (offer : takesOffer dev d = false) (ack : takesAck dev d = false) :
    netHandleDhcp d dev = dev := by
  simp only [takesOffer, takesAck, decide_eq_false_iff_not] at offer ack
  unfold netHandleDhcp
  split
  · rfl
  · rename_i accepts
    have accepts := eq_true_of_ne_false accepts
    rw [if_neg fun test => offer ⟨accepts, test⟩, if_neg fun test => ack ⟨accepts, test⟩]

/-- A REQUEST for an address, from a server. -/
def Requests (ip server : Ip) (f : Frame) : Prop :=
  requestOf f = some (ip, server) ∧ ip ≠ Bytes.zero ∧ server ≠ Bytes.zero

theorem netHandleDhcp_offer (takes : takesOffer dev d) :
    Sends (Requests (yiaddr d) (dhcpServer d)) (takeOffer d dev) (netHandleDhcp d dev) := by
  simp only [takesOffer, decide_eq_true_eq] at takes
  obtain ⟨accepts, awaited⟩ := takes
  unfold netHandleDhcp
  rw [accepts, if_neg Bool.noConfusion, if_pos awaited]
  dsimp only
  split
  · rename_i whole
    exact .netDhcpSendTo fun _ => ⟨requestOf_request .., whole⟩
  · exact .refl _

inductive Change (dev : NetDev) : Event → NetDev → Prop where
  /-- Nothing that concerns it. -/
  | aside {event : Event} {dev' : NetDev} (ip : Ip) (mac : Mac)
      (sends : Sends (fun f => requestOf f = none)
        { dev with dhcpHintIp := ip, dhcpHintMac := mac } dev') : Change dev event dev'
  /-- An OFFER is taken, and a REQUEST sent if one can be formed. -/
  | offer {r : Received} {d : List UInt8} {dev' : NetDev} (found : offerIn dev r = some d)
      (sends : Sends (Requests (yiaddr d) (dhcpServer d)) (takeOffer d dev) dev') :
      Change dev (.frame r) dev'
  /-- An ACK is taken. -/
  | ack {r : Received} {d : List UInt8} (found : ackIn dev r = some d) :
      Change dev (.frame r) (takeAck d dev)
  /-- The REQUEST is sent again. -/
  | again {dev' : NetDev} (stage : dev.dhcpStage = 2)
      (sends : Sends (Requests dev.dhcpOfferIp dev.dhcpServerIp) dev dev') : Change dev .retry dev'

theorem Event.change (event : Event) (dev : NetDev) : Change dev event (event.step dev) := by
  cases event with
  | frame r =>
    rw [Event.step]
    cases found : dhcpIn dev r with
    | none =>
      obtain ⟨ip, mac, sends⟩ := netProcessFrame_aside found
      exact .aside ip mac sends
    | some d =>
      rw [netProcessFrame_dhcp found]
      by_cases offer : takesOffer dev d
      · exact .offer (offerIn_eq_some.mpr ⟨found, offer⟩) (netHandleDhcp_offer offer)
      by_cases ack : takesAck dev d
      · rw [netHandleDhcp_ack ack]
        exact .ack (ackIn_eq_some.mpr ⟨found, ack⟩)
      · rw [netHandleDhcp_other (eq_false_of_ne_true offer) (eq_false_of_ne_true ack)]
        exact .aside dev.dhcpHintIp dev.dhcpHintMac (.refl dev)
  | retry =>
    rw [Event.step, netDhcpRetry]
    split
    · have first : Sends (fun f => requestOf f = none) dev (netDhcpSend 1 none dev) :=
        .netDhcpSendTo fun _ => discover_not_request ..
      refine .aside dev.dhcpHintIp dev.dhcpHintMac ?_
      dsimp only
      split
      · exact first.trans (.netDhcpSendTo fun _ => discover_not_request ..)
      · exact first
    split
    · rename_i whole
      exact .again whole.1 (.netDhcpSendTo fun _ => ⟨requestOf_request .., whole.2⟩)
    · exact .aside dev.dhcpHintIp dev.dhcpHintMac (.refl dev)

/-- A message with an address, and with its type and the server as options. -/
def serverMessage (xid type : Nat) (yi server : Ip) : List UInt8 :=
  [2, 1, 6, 0] ++ Bytes.beBytes 4 xid ++ List.replicate 8 0 ++ yi.toList ++ List.replicate 24 0 ++
    List.replicate 192 0 ++ Bytes.beBytes 4 DHCP_MAGIC ++ [53, 1, UInt8.ofNat type] ++
    ([54, 4] ++ server.toList) ++ [255]

variable (ticks xid : Nat) (type : Nat) (yi server : Ip)

theorem length_serverMessage : (serverMessage xid type yi server).length = 250 := by
  simp only [serverMessage, List.length_append, Bytes.length_beBytes, Bytes.length_toList,
    List.length_replicate, List.length_cons, List.length_nil]

def serverBytes (xid type : Nat) (yi server : Ip) : Frame :=
  ethHdr macBroadcast Bytes.zero ETH_TYPE_IPV4 ++ (ip4Hdr 278 0 IP_PROTO_UDP server ipBroadcast ++
      (Bytes.beBytes 2 DHCP_SERVER_PORT ++ Bytes.beBytes 2 DHCP_CLIENT_PORT ++ Bytes.beBytes 2 258 ++
        [0, 0] ++ serverMessage xid type yi server))

def serverFrame (xid type : Nat) (yi server : Ip) : Received :=
  ⟨Bytes.ofList (serverBytes xid type yi server), 292⟩

theorem length_serverBytes : (serverBytes xid type yi server).length = 292 := by
  simp only [serverBytes, List.length_append, length_ethHdr, length_ip4Hdr, length_serverMessage,
    Bytes.length_beBytes, List.length_cons, List.length_nil, ETH_HDR, IP4_HDR]

theorem slice_serverFrame (inside : off + len ≤ 292) :
    (serverFrame xid type yi server).frame.slice off len =
      field (serverBytes xid type yi server) off len :=
  Bytes.slice_ofList _ _ _ (by rwa [length_serverBytes]) (Nat.le_trans inside (by decide))

theorem unwrap_ipv4 (etype : etypeOf r.frame = ETH_TYPE_IPV4) : unwrap r = r := by
  have known : netKnownEtype ETH_TYPE_IPV4 = true := by decide
  have aligned : realign r = r := by
    unfold realign
    rw [etype, known]
    exact if_neg fun test => absurd test.1 Bool.noConfusion
  have plain : netL2Try8023SnapIpv4 r = r := by
    unfold netL2Try8023SnapIpv4
    rw [etype]
    exact if_neg fun test => absurd test.2.1 (by decide)
  rw [unwrap, aligned, plain, untag, etype]
  exact if_neg fun test => absurd test.1 (by decide)

theorem field_udp_serverBytes (off len : Nat) :
    field (serverBytes xid type yi server) (34 + off) len =
      field (Bytes.beBytes 2 DHCP_SERVER_PORT ++ Bytes.beBytes 2 DHCP_CLIENT_PORT ++
        Bytes.beBytes 2 258 ++ [0, 0] ++ serverMessage xid type yi server) off len := by
  have size := length_ip4Hdr 278 0 IP_PROTO_UDP server ipBroadcast
  unfold IP4_HDR at size
  rw [serverBytes, show 34 + off = ETH_HDR + (20 + off) by unfold ETH_HDR; omega, field_frame,
    field_append_right (by omega), size, Nat.add_sub_cancel_left]

theorem field_ip_serverBytes (inside : off + len ≤ 20) :
    field (serverBytes xid type yi server) (14 + off) len =
      field (ip4Hdr 278 0 IP_PROTO_UDP server ipBroadcast) off len := by
  have size := length_ip4Hdr 278 0 IP_PROTO_UDP server ipBroadcast
  unfold IP4_HDR at size
  rw [serverBytes, show 14 + off = ETH_HDR + off from rfl, field_frame, field_append_left (by omega)]

theorem headers_serverFrame (xid type : Nat) (yi server : Ip) :
    let frame := (serverFrame xid type yi server).frame
    etypeOf frame = ETH_TYPE_IPV4 ∧ ipHdrLen frame = 20 ∧ ipProto frame = IP_PROTO_UDP ∧
      ipTotLen frame = 278 ∧ udpSport frame 20 = DHCP_SERVER_PORT ∧
      udpDport frame 20 = DHCP_CLIENT_PORT ∧ be16 frame 38 = 258 := by
  have first := slice_serverFrame xid type yi server (show 14 + 1 ≤ 292 by decide)
  have proto := slice_serverFrame xid type yi server (show 23 + 1 ≤ 292 by decide)
  rw [field_ip_serverBytes _ _ _ _ (show 0 + 1 ≤ 20 by decide)] at first
  rw [field_ip_serverBytes _ _ _ _ (show 9 + 1 ≤ 20 by decide)] at proto
  refine ⟨?_, ?_, ?_, ?_, ?_, ?_, ?_⟩
  · rw [etypeOf, be16, slice_serverFrame _ _ _ _ (by decide), serverBytes, etype_frame]
    rfl
  · rw [ipHdrLen, show Bytes.byte _ 14 = 0x45 from (List.cons.inj first).1]
    rfl
  · rw [ipProto, show Bytes.byte _ 23 = 17 from (List.cons.inj proto).1]
    rfl
  · rw [ipTotLen, be16, slice_serverFrame _ _ _ _ (by decide),
      field_ip_serverBytes _ _ _ _ (show 2 + 2 ≤ 20 by decide), (field_ip4Hdr ..).2]
    rfl
  · rw [udpSport, be16, slice_serverFrame _ _ _ _ (by decide)]
    exact congrArg Bytes.beNat (field_udp_serverBytes xid type yi server 0 2)
  · rw [udpDport, be16, slice_serverFrame _ _ _ _ (by decide)]
    exact congrArg Bytes.beNat (field_udp_serverBytes xid type yi server 2 2)
  · rw [be16, slice_serverFrame _ _ _ _ (by decide)]
    exact congrArg Bytes.beNat (field_udp_serverBytes xid type yi server 4 2)

theorem dhcpIn_serverFrame (dev : NetDev) (xid type : Nat) (yi server : Ip) :
    dhcpIn dev (serverFrame xid type yi server) = some (serverMessage xid type yi server) := by
  obtain ⟨etype, ihl, proto, total, sport, dport, size⟩ := headers_serverFrame xid type yi server
  have toClient : udpIsDhcpToClient (serverFrame xid type yi server).frame 292 20 := by
    have ok : udpHdrOk (serverFrame xid type yi server).frame 292 20 :=
      decide_eq_true ⟨proto, by decide, by rw [total]; decide⟩
    exact decide_eq_true ⟨ok, sport, dport⟩
  have ours : ipForUs dev (serverFrame xid type yi server).frame 292 20 :=
    decide_eq_true (.inr (.inr (.inl toClient)))
  have payload : (serverFrame xid type yi server).frame.slice 42 250 =
      serverMessage xid type yi server := by
    have whole := field_whole (serverMessage xid type yi server)
    rw [length_serverMessage] at whole
    rw [slice_serverFrame _ _ _ _ (by decide), show 42 = 34 + 8 from rfl, field_udp_serverBytes,
      field_append_right (by rfl)]
    exact whole
  have found : udpPayload (serverFrame xid type yi server).frame 292 20 =
      some (serverMessage xid type yi server) := by
    unfold udpPayload
    rw [total, sport, dport, show ETH_HDR + 20 + 4 = 38 from rfl, size]
    exact congrArg some payload
  unfold dhcpIn
  rw [unwrap_ipv4 etype]
  dsimp only
  rw [ihl, if_pos ⟨show 14 ≤ 292 by decide, etype, show 34 ≤ 292 by decide, by decide, ours, proto⟩]
  exact found

theorem scan_serverOptions (fuel type : Nat) (server : Ip) :
    DhcpOpts.scan (fuel + 4) ([53, 1, UInt8.ofNat type] ++ ([54, 4] ++ server.toList) ++ [255]) .start =
      { DhcpOpts.start with mtype := (UInt8.ofNat type).toNat, server := server } := by
  rw [show DhcpOpts.scan (fuel + 4) ([53, 1, UInt8.ofNat type] ++ ([54, 4] ++ server.toList) ++ [255])
    .start = { DhcpOpts.start with
      mtype := (UInt8.ofNat type).toNat, server := Bytes.ofList server.toList } from rfl,
    Bytes.ofList_toList]

/-- What the client reads in a message of a server. -/
theorem serverMessage_spec :
    yiaddr (serverMessage xid type yi server) = yi ∧ dhcpOpts (serverMessage xid type yi server) =
        { DhcpOpts.start with mtype := (UInt8.ofNat type).toNat, server := server } := by
  refine ⟨Bytes.ofList_toList yi, ?_⟩
  rw [dhcpOpts, length_serverMessage]
  exact scan_serverOptions 246 type server

theorem dhcpAccepts_serverMessage {xid : Nat} (same : dev.dhcpXid = xid) (small : xid < 2 ^ 32)
    (type : Nat) (yi server : Ip) : dhcpAccepts dev (serverMessage xid type yi server) := by
  have id : Bytes.beNat (field (serverMessage xid type yi server) 4 4) = dev.dhcpXid := by
    rw [same, show field (serverMessage xid type yi server) 4 4 = Bytes.beBytes 4 xid from rfl,
      Bytes.beNat_beBytes]
    exact Nat.mod_eq_of_lt small
  have magic : Bytes.beNat (field (serverMessage xid type yi server) 236 4) = DHCP_MAGIC := by
    rw [show field (serverMessage xid type yi server) 236 4 = Bytes.beBytes 4 DHCP_MAGIC from rfl,
      Bytes.beNat_beBytes]
    decide
  have unnamed : chaddr (serverMessage xid type yi server) = Bytes.zero := by
    rw [chaddr, show field (serverMessage xid type yi server) 28 6 = [0, 0, 0, 0, 0, 0] from rfl]
    decide
  rw [dhcpAccepts, length_serverMessage]
  exact decide_eq_true ⟨by decide, rfl, rfl, rfl, id, magic, .inl unnamed⟩

@[simp] theorem netDhcpRun_nil (dev : NetDev) : netDhcpRun [] dev = dev := rfl

theorem netDhcpRun_singleton (event : Event) (dev : NetDev) :
    netDhcpRun [event] dev = event.step dev := rfl

theorem netDhcpRun_append (first second : List Event) (dev : NetDev) :
    netDhcpRun (first ++ second) dev = netDhcpRun second (netDhcpRun first dev) :=
  List.foldl_append

theorem netDhcpRun_concat (events : List Event) (event : Event) (dev : NetDev) :
    netDhcpRun (events ++ [event]) dev = event.step (netDhcpRun events dev) :=
  netDhcpRun_append events [event] dev

/-- In the course of the events a message arrives that `found` sees and that satisfies `P`. -/
def Arrived (found : NetDev → Received → Option (List UInt8)) (P : List UInt8 → Prop)
    (start : NetDev) (events : List Event) : Prop :=
  ∃ before r after d, events = before ++ .frame r :: after ∧
    found (netDhcpRun before start) r = some d ∧ P d

theorem Arrived.concat {found : NetDev → Received → Option (List UInt8)} {P : List UInt8 → Prop}
    (arrived : Arrived found P start events) (event : Event) :
    Arrived found P start (events ++ [event]) := by
  obtain ⟨before, r, after, d, rfl, seen, holds⟩ := arrived
  exact ⟨before, r, after ++ [event], d, by rw [List.append_assoc, List.cons_append], seen, holds⟩

theorem Arrived.last {found : NetDev → Received → Option (List UInt8)} {P : List UInt8 → Prop}
    (seen : found (netDhcpRun events start) r = some d) (holds : P d) :
    Arrived found P start (events ++ [.frame r]) :=
  ⟨events, r, [], d, rfl, seen, holds⟩

def Asked (start dev : NetDev) (ip server : Ip) : Prop :=
  ∃ f ∈ dev.sent.drop start.sent.length, requestOf f = some (ip, server)

def Requested (start : NetDev) (events : List Event) (ip server : Ip) : Prop :=
  Arrived offerIn (fun offer => yiaddr offer = ip ∧ dhcpServer offer = server) start events ∧
    Asked start (netDhcpRun events start) ip server

/-- What is known of the client after some events of an acquisition. -/
structure Acquiring (start : NetDev) (events : List Event) (dev : NetDev) : Prop where
  xid : dev.dhcpXid = start.dhcpXid
  stage : 1 ≤ dev.dhcpStage
  sent : start.sent.length ≤ dev.sent.length
  /-- All REQUESTs are for the OFFER that was taken. -/
  asked : ∀ ip server, Asked start dev ip server →
    2 ≤ dev.dhcpStage ∧ ip = dev.dhcpOfferIp ∧ server = dev.dhcpServerIp ∧ ip ≠ Bytes.zero ∧
      server ≠ Bytes.zero
  offered : 2 ≤ dev.dhcpStage → Arrived offerIn
    (fun offer => yiaddr offer = dev.dhcpOfferIp ∧ dhcpServer offer = dev.dhcpServerIp) start events
  configured : dev.dhcpOk → 2 ≤ dev.dhcpStage ∧ Arrived ackIn (fun d => yiaddr d = dev.ip) start events

theorem Asked.cases {P : Frame → Prop} {ip server : Ip} (sends : Sends P dev dev')
    (long : start.sent.length ≤ dev.sent.length) (asked : Asked start dev' ip server) :
    Asked start dev ip server ∨ ∃ f, P f ∧ requestOf f = some (ip, server) := by
  obtain ⟨_, _, frames, rfl, all⟩ := sends
  obtain ⟨f, member, request⟩ := asked
  dsimp only at member
  rw [List.drop_append_of_le_length long] at member
  rcases List.mem_append.mp member with old | new
  · exact .inl ⟨f, old, request⟩
  · exact .inr ⟨f, all f new, request⟩

theorem Sends.length_le {P : Frame → Prop} (sends : Sends P dev dev') :
    dev.sent.length ≤ dev'.sent.length := by
  obtain ⟨_, _, frames, rfl, _⟩ := sends
  exact (List.length_append ▸ Nat.le_add_right _ _)

theorem Acquiring.step {event : Event} (reached : netDhcpRun events start = dev)
    (acquiring : Acquiring start events dev) (change : Change dev event dev') :
    Acquiring start (events ++ [event]) dev' := by
  obtain ⟨xid, stage, sent, asked, offered, configured⟩ := acquiring
  cases change with
  | aside ip mac sends =>
    have longer := sends.length_le
    have old : ∀ ip server, Asked start dev' ip server → Asked start dev ip server := by
      intro ip server now
      rcases Asked.cases sends sent now with old | ⟨f, other, request⟩
      · exact old
      · cases other.symm.trans request
    obtain ⟨_, _, _, rfl, _⟩ := sends
    exact ⟨xid, stage, sent.trans longer, fun ip server now => asked ip server (old ip server now),
      fun late => (offered late).concat event,
      fun ok => ⟨(configured ok).1, (configured ok).2.concat event⟩⟩
  | @offer r d _ found sends =>
    have longer := sends.length_le
    have waiting : dev.dhcpStage = 1 := by
      have takes := (offerIn_eq_some.mp found).2
      simp only [takesOffer, decide_eq_true_eq] at takes
      exact takes.2.2
    -- Nothing was requested before the OFFER was taken.
    have new : ∀ ip server, Asked start dev' ip server →
        ip = yiaddr d ∧ server = dhcpServer d ∧ ip ≠ Bytes.zero ∧ server ≠ Bytes.zero := by
      intro ip server now
      rcases Asked.cases sends sent now with old | ⟨f, wanted, request⟩
      · have late := (asked ip server old).1
        omega
      · cases wanted.1.symm.trans request
        exact ⟨rfl, rfl, wanted.2⟩
    obtain ⟨_, _, _, rfl, _⟩ := sends
    refine ⟨xid, Nat.le_succ 1, sent.trans longer,
      fun ip server now => ⟨Nat.le_refl 2, new ip server now⟩,
      fun _ => .last (reached ▸ found) ⟨rfl, rfl⟩, fun ok => ?_⟩
    have late := (configured ok).1
    omega
  | @ack r d found =>
    have takes := (ackIn_eq_some.mp found).2
    simp only [takesAck, decide_eq_true_eq] at takes
    exact ⟨xid, Nat.le_succ_of_le (Nat.le_succ 1), sent,
      fun ip server now => ⟨Nat.le_succ 2, (asked ip server now).2⟩,
      fun _ => (offered takes.2.2).concat _, fun _ => ⟨Nat.le_succ 2, .last (reached ▸ found) rfl⟩⟩
  | again late sends =>
    have longer := sends.length_le
    have known : ∀ ip server, Asked start dev' ip server →
        2 ≤ dev.dhcpStage ∧ ip = dev.dhcpOfferIp ∧ server = dev.dhcpServerIp ∧
          ip ≠ Bytes.zero ∧ server ≠ Bytes.zero := by
      intro ip server now
      rcases Asked.cases sends sent now with old | ⟨f, wanted, request⟩
      · exact asked ip server old
      · cases wanted.1.symm.trans request
        exact ⟨Nat.le_of_eq late.symm, rfl, rfl, wanted.2⟩
    obtain ⟨_, _, _, rfl, _⟩ := sends
    exact ⟨xid, stage, sent.trans longer, known, fun late => (offered late).concat _,
      fun ok => ⟨(configured ok).1, (configured ok).2.concat _⟩⟩

theorem netDhcpBegin_sends (dev : NetDev) :
    Sends (fun _ => True) (dhcpReset ticks dev) (netDhcpBegin ticks dev) := by
  unfold netDhcpBegin netDhcpSend
  exact .netDhcpSendTo fun _ => trivial

theorem netDhcpBegin_stage (dev : NetDev) : (netDhcpBegin ticks dev).dhcpStage = 1 := by
  obtain ⟨_, _, _, eq, _⟩ := netDhcpBegin_sends ticks dev
  rw [eq, dhcpReset]

theorem netDhcpBegin_ok (dev : NetDev) : (netDhcpBegin ticks dev).dhcpOk = false := by
  obtain ⟨_, _, _, eq, _⟩ := netDhcpBegin_sends ticks dev
  rw [eq, dhcpReset]

theorem Acquiring.begin (dev : NetDev) :
    Acquiring (netDhcpBegin ticks dev) [] (netDhcpBegin ticks dev) := by
  have silent : ∀ ip server, ¬ Asked (netDhcpBegin ticks dev) (netDhcpBegin ticks dev) ip server := by
    rintro ip server ⟨f, member, _⟩
    rw [List.drop_length] at member
    cases member
  have stage := netDhcpBegin_stage ticks dev
  refine ⟨rfl, by omega, Nat.le_refl _, fun ip server now => absurd now (silent ip server), by omega, ?_⟩
  rw [netDhcpBegin_ok]
  exact Bool.noConfusion

theorem Acquiring.run (dev : NetDev) (events : List Event) :
    Acquiring (netDhcpBegin ticks dev) events (netDhcpRun events (netDhcpBegin ticks dev)) := by
  induction events using List.reverseRecOn with
  | nil =>
    rw [netDhcpRun_nil]
    exact .begin ticks dev
  | append_singleton events event ih =>
    rw [netDhcpRun_concat]
    exact ih.step rfl (event.change _)

/-- Once an OFFER is taken it stays the one, and a configured client stays configured. -/
structure Settled (dev dev' : NetDev) : Prop where
  stage : 2 ≤ dev'.dhcpStage
  offer : dev'.dhcpOfferIp = dev.dhcpOfferIp ∧ dev'.dhcpServerIp = dev.dhcpServerIp
  ok : dev.dhcpOk → dev'.dhcpOk

theorem Change.settled {event : Event} (late : 2 ≤ dev.dhcpStage) (change : Change dev event dev') :
    Settled dev dev' := by
  cases change with
  | aside _ _ sends | again _ sends =>
    obtain ⟨_, _, _, rfl, _⟩ := sends
    exact ⟨late, ⟨rfl, rfl⟩, id⟩
  | offer found _ =>
    have takes := (offerIn_eq_some.mp found).2
    simp only [takesOffer, decide_eq_true_eq] at takes
    omega
  | ack _ => exact ⟨Nat.le_succ 2, ⟨rfl, rfl⟩, fun _ => rfl⟩

theorem settled_run (late : 2 ≤ dev.dhcpStage) (events : List Event) :
    Settled dev (netDhcpRun events dev) := by
  induction events using List.reverseRecOn with
  | nil => exact ⟨late, ⟨rfl, rfl⟩, id⟩
  | append_singleton events event ih =>
    rw [netDhcpRun_concat]
    have next := (event.change (netDhcpRun events dev)).settled ih.stage
    exact ⟨next.stage, ⟨next.offer.1.trans ih.offer.1, next.offer.2.trans ih.offer.2⟩,
      fun ok => next.ok (ih.ok ok)⟩

/-- The start of an acquisition; its transaction is `0x4D434256`. -/
def begun : NetDev := netDhcpBegin 0 NetDev.fresh

def host (number : UInt8) : Ip := Bytes.ofList [10, 0, 2, number]

def offerFrame : Received := serverFrame 0x4D434256 2 (host 15) (host 2)

def BadOffer (dev : NetDev) (d : List UInt8) : Prop :=
  dhcpAccepts dev d ∧ dhcpType dev d = 2 ∧ (yiaddr d = Bytes.zero ∨ dhcpServer d = Bytes.zero)

def GoodOffer (dev : NetDev) (d : List UInt8) : Prop :=
  dhcpAccepts dev d ∧ (dhcpOpts d).mtype = 2 ∧ yiaddr d ≠ Bytes.zero ∧ dhcpServer d ≠ Bytes.zero

instance (dev : NetDev) (d : List UInt8) : Decidable (BadOffer dev d) := by
  unfold BadOffer; infer_instance

instance (dev : NetDev) (d : List UInt8) : Decidable (GoodOffer dev d) := by
  unfold GoodOffer; infer_instance

/-- A frame does no harm to the OFFERs that come after it. -/
structure Unharmed (dev : NetDev) (bad : Received) : Prop where
  /-- A later good OFFER, and what follows it, is processed as if the frame had not arrived. -/
  same : ∀ between good d after, dhcpIn (netDhcpRun between dev) good = some d →
    GoodOffer (netDhcpRun between dev) d →
    netDhcpRun (between ++ .frame good :: after) (netProcessFrame bad dev) =
      netDhcpRun (between ++ .frame good :: after) dev
  /-- If the client waits for an OFFER and the ring has room, the REQUEST is sent. -/
  requested : ∀ between good d, dhcpIn (netDhcpRun between dev) good = some d →
    GoodOffer (netDhcpRun between dev) d → (netDhcpRun between dev).dhcpStage = 1 →
    (netDhcpRun between dev).initialized →
    (netDhcpRun between dev).room (netDhcpRun between dev).tries →
    Asked (netDhcpRun between (netProcessFrame bad dev))
      (netDhcpRun (between ++ [.frame good]) (netProcessFrame bad dev)) (yiaddr d) (dhcpServer d)
  /-- The ACK that matches it then completes the acquisition. -/
  completes : ∀ between good d ack a, dhcpIn (netDhcpRun between dev) good = some d →
    GoodOffer (netDhcpRun between dev) d → (netDhcpRun between dev).dhcpStage = 1 →
    dhcpIn (netDhcpRun (between ++ [.frame good]) dev) ack = some a →
    dhcpAccepts (netDhcpRun (between ++ [.frame good]) dev) a → (dhcpOpts a).mtype = 5 →
    yiaddr a = yiaddr d → (dhcpOpts a).server = dhcpServer d →
    (netDhcpRun (between ++ [.frame good, .frame ack]) (netProcessFrame bad dev)).dhcpOk ∧
      (netDhcpRun (between ++ [.frame good, .frame ack]) (netProcessFrame bad dev)).ip = yiaddr d

/-- A client that does not wait for an OFFER drops it. -/
theorem netProcessFrame_badOffer (found : dhcpIn dev bad = some d) (isBad : BadOffer dev d)
    (busy : dev.dhcpStage ≠ 1) : netProcessFrame bad dev = dev := by
  rw [netProcessFrame_dhcp found]
  refine netHandleDhcp_other (takesOffer_busy busy d) (takesAck_other ?_)
  rw [isBad.2.1]
  decide

/-- A client that waits takes it, although nothing can be requested. -/
theorem netProcessFrame_badOffer_waiting (found : dhcpIn dev bad = some d) (isBad : BadOffer dev d)
    (waits : dev.dhcpStage = 1) : netProcessFrame bad dev = takeOffer d dev := by
  obtain ⟨accepts, type, incomplete⟩ := isBad
  rw [netProcessFrame_dhcp found]
  unfold netHandleDhcp
  rw [accepts, if_neg Bool.noConfusion, if_pos ⟨type, waits⟩]
  refine if_neg fun whole => ?_
  rcases incomplete with noAddress | noServer
  · exact whole.1 noAddress
  · exact whole.2 noServer

theorem xid_small (dev : NetDev) : (netDhcpBegin ticks dev).dhcpXid < 2 ^ 32 := by
  obtain ⟨_, _, _, eq, _⟩ := netDhcpBegin_sends ticks dev
  have third := (dev.mac.byte 3).toNat_lt
  have fifth := (dev.mac.byte 5).toNat_lt
  rw [eq, dhcpReset]
  refine Nat.xor_lt_two_pow (Nat.xor_lt_two_pow (Nat.xor_lt_two_pow (by decide) ?_) ?_) ?_
  · exact Nat.mod_lt _ (by decide)
  · omega
  · omega

theorem length_request (dev : NetDev) (ip server : Ip) :
    (dhcpPacket dev 3 (some (ip, server))).length = 300 := by
  simp only [dhcpPacket, dhcpOptions, List.length_append, Bytes.length_beBytes, Bytes.length_toList,
    List.length_replicate, List.length_cons, List.length_nil, DHCP_MIN_PAYLOAD, ↓reduceIte]

theorem length_udpFrame (dev : NetDev) (dstMac : Mac) (srcIp dstIp : Ip) (sport dport : Nat)
    (payload : List UInt8) (withCsum : Bool) :
    (udpFrame dev dstMac srcIp dstIp sport dport payload withCsum).length =
      ETH_HDR + IP4_HDR + UDP_HDR + payload.length := by
  simp only [udpFrame, udpWith, List.length_append, length_ethHdr, length_ip4Hdr,
    Bytes.length_beBytes, UDP_HDR]
  omega

theorem netDhcpSend_request (dev : NetDev) (up : dev.initialized) (free : dev.room dev.tries)
    (ip server : Ip) : Asked dev (netDhcpSend 3 (some (ip, server)) dev) ip server := by
  have size := length_request dev ip server
  have first : netSendUdpPkt macBroadcast Bytes.zero ipBroadcast DHCP_CLIENT_PORT DHCP_SERVER_PORT
      (dhcpPacket dev 3 (some (ip, server))) dev =
      (true, { dev with tries := dev.tries + 1, sent := dev.sent ++ [padded (udpFrame dev macBroadcast
        Bytes.zero ipBroadcast DHCP_CLIENT_PORT DHCP_SERVER_PORT
        (dhcpPacket dev 3 (some (ip, server))) false)] }) := by
    unfold netSendUdpPkt netSendUdpPktOpts
    rw [size, if_neg (by decide)]
    unfold netTxRaw
    rw [length_udpFrame, size, up, if_neg (by decide)]
    exact if_pos free
  have rest : Sends (fun _ => True) { dev with
      tries := dev.tries + 1, sent := dev.sent ++ [padded (udpFrame dev macBroadcast Bytes.zero
        ipBroadcast DHCP_CLIENT_PORT DHCP_SERVER_PORT (dhcpPacket dev 3 (some (ip, server))) false)] }
      (netDhcpSend 3 (some (ip, server)) dev) := by
    unfold netDhcpSend netDhcpSendTo
    dsimp only
    rw [first]
    dsimp only
    split
    · exact (Sends.silent _ _).trans (.netSendUdpPktOpts trivial)
    · exact .silent _ _
  obtain ⟨_, _, frames, eq, _⟩ := rest
  refine ⟨_, ?_, requestOf_request dev macBroadcast ipBroadcast ip server false⟩
  rw [eq, List.append_assoc, List.drop_left]
  exact List.mem_append_left _ (List.mem_singleton_self _)

theorem dhcpType_eq {type : Nat} (stated : (dhcpOpts d).mtype = type) (some : type ≠ 0)
    (dev : NetDev) : dhcpType dev d = type := by
  rw [dhcpType, stated]
  exact if_neg fun test => some test.1

theorem GoodOffer.takes (good : GoodOffer dev d) (waits : dev.dhcpStage = 1) : takesOffer dev d :=
  decide_eq_true ⟨good.1, dhcpType_eq good.2.1 (by decide) dev, waits⟩

theorem netHandleDhcp_requested (takes : takesOffer dev d)
    (named : yiaddr d ≠ Bytes.zero ∧ dhcpServer d ≠ Bytes.zero) (up : dev.initialized)
    (free : dev.room dev.tries) : Asked dev (netHandleDhcp d dev) (yiaddr d) (dhcpServer d) := by
  simp only [takesOffer, decide_eq_true_eq] at takes
  unfold netHandleDhcp
  rw [takes.1, if_neg Bool.noConfusion, if_pos takes.2]
  have whole : (takeOffer d dev).dhcpOfferIp ≠ Bytes.zero ∧ (takeOffer d dev).dhcpServerIp ≠ Bytes.zero :=
    named
  dsimp only
  rw [if_pos whole]
  exact netDhcpSend_request (takeOffer d dev) up free (yiaddr d) (dhcpServer d)

theorem unharmed_of_dropped (dropped : netProcessFrame bad dev = dev) : Unharmed dev bad := by
  refine ⟨fun between good d after _ _ => by rw [dropped], ?_, ?_⟩
  · intro between good d found isGood waits up free
    rw [dropped, netDhcpRun_concat, Event.step, netProcessFrame_dhcp found]
    exact netHandleDhcp_requested (isGood.takes waits) isGood.2.2 up free
  · intro between good d ack a found isGood waits found' accepts type address _
    have late : (netDhcpRun (between ++ [.frame good]) dev).dhcpStage = 2 := by
      obtain ⟨_, _, _, eq, _⟩ := netHandleDhcp_offer (isGood.takes waits)
      rw [netDhcpRun_concat, Event.step, netProcessFrame_dhcp found, eq, takeOffer]
    have takes : takesAck (netDhcpRun (between ++ [.frame good]) dev) a :=
      decide_eq_true ⟨accepts, dhcpType_eq type (by decide) _, by omega⟩
    have split : between ++ [.frame good, .frame ack] = between ++ [.frame good] ++ [.frame ack] := by
      rw [List.append_assoc, List.singleton_append]
    rw [dropped, split, netDhcpRun_concat, Event.step, netProcessFrame_dhcp found',
      netHandleDhcp_ack takes]
    exact ⟨rfl, address⟩

theorem dhcpServer_serverMessage (yi : Ip) {server : Ip} (some : server ≠ Bytes.zero) :
    dhcpServer (serverMessage xid type yi server) = server := by
  rw [dhcpServer, (serverMessage_spec ..).2, if_neg some]

theorem goodOffer_serverMessage {xid : Nat} (same : dev.dhcpXid = xid) (small : xid < 2 ^ 32)
    (yi server : Ip) (address : yi ≠ Bytes.zero) (name : server ≠ Bytes.zero) :
    GoodOffer dev (serverMessage xid 2 yi server) := by
  obtain ⟨yi_eq, opts_eq⟩ := serverMessage_spec xid 2 yi server
  rw [GoodOffer, yi_eq, dhcpServer_serverMessage _ _ _ name, opts_eq]
  exact ⟨dhcpAccepts_serverMessage same small 2 yi server, rfl, address, name⟩

theorem netHandleDhcp_goodOffer_busy (type : (dhcpOpts d).mtype = 2) (busy : dev.dhcpStage ≠ 1) :
    netHandleDhcp d dev = dev := by
  refine netHandleDhcp_other (takesOffer_busy busy d) (takesAck_other ?_)
  rw [dhcpType_eq type (by decide)]
  decide

/-- The first good OFFER is lost on a client that has taken a bad one. -/
theorem harmed_of_waiting {good : Received} {g : List UInt8} (found : dhcpIn dev bad = some d)
    (isBad : BadOffer dev d) (waits : dev.dhcpStage = 1) (found' : ∀ dev, dhcpIn dev good = some g)
    (isGood : GoodOffer dev g) : ¬ Unharmed dev bad := by
  intro unharmed
  have same := unharmed.same [] good g [] (found' _) isGood
  obtain ⟨_, _, _, requested, _⟩ := netHandleDhcp_offer (isGood.takes waits)
  rw [List.nil_append, netDhcpRun_singleton, netDhcpRun_singleton, Event.step, Event.step,
    netProcessFrame_badOffer_waiting found isBad waits, netProcessFrame_dhcp (found' _),
    netProcessFrame_dhcp (found' _), netHandleDhcp_goodOffer_busy isGood.2.1 (show 2 ≠ 1 by decide),
    requested] at same
  have offered : yiaddr d = yiaddr g := congrArg NetDev.dhcpOfferIp same
  have named : dhcpServer d = dhcpServer g := congrArg NetDev.dhcpServerIp same
  rcases isBad.2.2 with noAddress | noServer
  · exact isGood.2.2.1 (offered.symm.trans noAddress)
  · exact isGood.2.2.2 (named.symm.trans noServer)

/-- Later OFFERs are unharmed by a bad one exactly if the client does not wait for an OFFER when
it comes. -/
theorem unharmed_iff (ticks : Nat) (dev : NetDev) (earlier : List Event) (bad : Received)
    (d : List UInt8) (found : dhcpIn (netDhcpRun earlier (netDhcpBegin ticks dev)) bad = some d)
    (isBad : BadOffer (netDhcpRun earlier (netDhcpBegin ticks dev)) d) :
    Unharmed (netDhcpRun earlier (netDhcpBegin ticks dev)) bad ↔
      (netDhcpRun earlier (netDhcpBegin ticks dev)).dhcpStage ≠ 1 := by
  have xid := (Acquiring.run ticks dev earlier).xid
  have good := goodOffer_serverMessage xid (xid_small ticks dev) (Bytes.ofList [10, 0, 2, 15])
    (Bytes.ofList [10, 0, 2, 2]) (by decide) (by decide)
  constructor
  · intro unharmed waits
    exact harmed_of_waiting found isBad waits (fun _ => dhcpIn_serverFrame ..) good unharmed
  · intro busy
    exact unharmed_of_dropped (netProcessFrame_badOffer found isBad busy)

def emptyOffer : Received := serverFrame 0x4D434256 2 Bytes.zero (host 3)

theorem unharmed_busy : Unharmed (netDhcpRun [.frame offerFrame] begun) emptyOffer :=
  have busy : BadOffer (netDhcpRun [.frame offerFrame] begun)
      (serverMessage 0x4D434256 2 Bytes.zero (host 3)) ∧
      (netDhcpRun [.frame offerFrame] begun).dhcpStage ≠ 1 := by decide +kernel
  (unharmed_iff 0 NetDev.fresh [.frame offerFrame] emptyOffer _
    (dhcpIn_serverFrame _ 0x4D434256 2 Bytes.zero (host 3)) busy.1).mpr busy.2

/-- After an OFFER without an address the good OFFER is not requested. -/
theorem badOffer_wedges : BadOffer begun (serverMessage 0x4D434256 2 Bytes.zero (host 3)) ∧
      ((netDhcpRun [.frame offerFrame] begun).sent.drop begun.sent.length).map requestOf =
        [some (host 15, host 2)] ∧
      (netDhcpRun [.frame emptyOffer, .frame offerFrame] begun).sent.drop begun.sent.length = [] ∧
      ¬ Unharmed begun emptyOffer := by
  have seen : BadOffer begun (serverMessage 0x4D434256 2 Bytes.zero (host 3)) ∧
      ((netDhcpRun [.frame offerFrame] begun).sent.drop begun.sent.length).map requestOf =
        [some (host 15, host 2)] ∧
      (netDhcpRun [.frame emptyOffer, .frame offerFrame] begun).sent.drop begun.sent.length = [] ∧
      GoodOffer begun (serverMessage 0x4D434256 2 (host 15) (host 2)) := by decide +kernel
  obtain ⟨bad, alone, after, good⟩ := seen
  exact ⟨bad, alone, after, harmed_of_waiting (dhcpIn_serverFrame ..) bad (netDhcpBegin_stage ..)
    (fun _ => dhcpIn_serverFrame ..) good⟩

end SirpairOs.Net
