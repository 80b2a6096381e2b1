import SirpairOs.Lib.OnesComplement
import SirpairOs.Net.Device

/-! The checksum that `net_send_udp_pkt_opts` puts into a datagram, and the receiver's check
of it. -/
namespace SirpairOs.Net

/-- The big-endian 16-bit words of a byte string, which is padded to an even length. -/
def words16 : List UInt8 → List Nat
  | [] => []
  | [high] => [high.toNat * 256]
  | high :: low :: rest => (high.toNat * 256 + low.toNat) :: words16 rest

/-- What the checksum of a datagram covers: the pseudo header and the datagram. -/
def udpCovered (src dst udp : List UInt8) : List UInt8 :=
  src ++ dst ++ [0, UInt8.ofNat IP_PROTO_UDP] ++ Bytes.beBytes 2 udp.length ++ udp

def udpSum (src dst udp : List UInt8) : Nat := onesSum 0xFFFF (words16 (udpCovered src dst udp))

/-- The datagram in an IP frame without options. -/
def frameUdp (frame : Frame) : List UInt8 :=
  field frame (ETH_HDR + IP4_HDR) (Bytes.beNat (field frame (ETH_HDR + IP4_HDR + 4) 2))

/-- The frame carries a checksum, and the receiver's check of it succeeds. -/
def UdpVerifies (frame : Frame) : Prop :=
  Bytes.beNat (field (frameUdp frame) 6 2) ≠ 0 ∧
    udpSum (field frame 26 4) (field frame 30 4) (frameUdp frame) = 0xFFFF

theorem words16_le (src : List UInt8) : ∀ w ∈ words16 src, w ≤ 0xFFFF := by
  fun_induction words16 src with
  | case1 => nofun
  | case2 high =>
    intro w member
    have bound := high.toNat_lt
    rw [List.mem_singleton.mp member]
    omega
  | case3 high low rest ih =>
    intro w member
    have bound := high.toNat_lt
    have bound' := low.toNat_lt
    rcases List.mem_cons.mp member with here | later
    · omega
    · exact ih w later

theorem sum_words16 (src : List UInt8) : (words16 src).sum = sumWords src := by
  fun_induction words16 src with
  | case1 => rfl
  | case2 high => rw [List.sum_cons, List.sum_nil, Nat.add_zero, sumWords]
  | case3 high low rest ih => rw [List.sum_cons, ih, sumWords]

theorem sumWords_append {front : List UInt8} (even : front.length % 2 = 0) (rest : List UInt8) :
    sumWords (front ++ rest) = sumWords front + sumWords rest := by
  fun_induction sumWords front with
  | case1 => rw [List.nil_append, Nat.zero_add]
  | case2 high => cases even
  | case3 high low front ih =>
    rw [List.length_cons, List.length_cons] at even
    rw [List.cons_append, List.cons_append, sumWords, ih (by omega)]
    omega

theorem sumWords_pair {src : List UInt8} (two : src.length = 2) :
    sumWords src = Bytes.beNat src := by
  obtain ⟨high, low, rfl⟩ := List.length_eq_two.mp two
  simp only [sumWords, Bytes.beNat, List.reverse_cons, List.reverse_nil, List.nil_append,
    List.cons_append, Bytes.leNat]
  omega

theorem sumWords_beBytes (n : Nat) : sumWords (Bytes.beBytes 2 n) = n % 65536 := by
  rw [sumWords_pair (Bytes.length_beBytes 2 n), Bytes.beNat_beBytes, show 256 ^ 2 = 65536 from rfl]

theorem foldCarry_ones {fuel sum : Nat} (enough : sum ≤ fuel) :
    Ones 0xFFFF sum (foldCarry fuel sum) := by
  induction fuel generalizing sum with
  | zero =>
    rw [foldCarry]
    exact Ones.self (by omega)
  | succ fuel ih =>
    rw [foldCarry]
    split
    · exact Ones.self (by omega)
    · have next := ih (show sum % 65536 + sum / 65536 ≤ fuel by omega)
      exact ⟨next.le, next.mod.trans (by omega), next.zero.trans (by omega)⟩

section Datagram

variable (src dst : Ip) (sport dport : Nat) (payload : List UInt8)

theorem length_udpWith (csum : Nat) :
    (udpWith csum sport dport payload).length = UDP_HDR + payload.length := by
  simp only [udpWith, List.length_append, Bytes.length_beBytes, UDP_HDR]

theorem sumWords_udpWith (csum : Nat) : sumWords (udpWith csum sport dport payload) =
    sumWords (udpWith 0 sport dport payload) + csum % 65536 := by
  have split (csum : Nat) : sumWords (udpWith csum sport dport payload) =
      sport % 65536 + dport % 65536 + (UDP_HDR + payload.length) % 65536 + csum % 65536 +
        sumWords payload := by
    unfold udpWith
    repeat rw [sumWords_append (by simp only [List.length_append, Bytes.length_beBytes])]
    simp only [sumWords_beBytes]
  rw [split csum, split 0]
  omega

variable (udp : List UInt8)

theorem sumWords_udpCovered (small : udp.length < 65536) :
    sumWords (udpCovered src.toList dst.toList udp) =
      sumWords src.toList + sumWords dst.toList + IP_PROTO_UDP + udp.length + sumWords udp := by
  unfold udpCovered
  repeat rw [sumWords_append (by simp only [List.length_append, Bytes.length_beBytes,
    Bytes.length_toList, List.length_cons, List.length_nil])]
  rw [sumWords_beBytes, Nat.mod_eq_of_lt small]
  rfl

theorem udpSum_ones (small : udp.length < 65536) :
    Ones 0xFFFF (sumWords src.toList + sumWords dst.toList + IP_PROTO_UDP + udp.length +
      sumWords udp) (udpSum src.toList dst.toList udp) := by
  have ones := onesSum_ones (words16_le (udpCovered src.toList dst.toList udp))
  rwa [sum_words16, sumWords_udpCovered src dst udp small] at ones

/-- The code complements the receiver's sum of the datagram without its checksum; the result
zero is never replaced. -/
theorem udpChecksum_eq (small : udp.length < 65536) :
    udpChecksum src dst udp = 0xFFFF - udpSum src.toList dst.toList udp := by
  have folded := foldCarry_ones (Nat.le_refl (sumWords src.toList + sumWords dst.toList +
    IP_PROTO_UDP + udp.length + sumWords udp))
  rw [(udpSum_ones src dst udp small).unique folded]
  have le := folded.le
  unfold udpChecksum
  dsimp only
  rw [if_neg (by omega)]
  omega

/-- The checksum of the code makes the receiver's sum all ones. -/
theorem udpSum_udpChecksum (small : UDP_HDR + payload.length < 65536) :
    udpSum src.toList dst.toList (udpWith (udpChecksum src dst (udpWith 0 sport dport payload))
      sport dport payload) = 0xFFFF := by
  have size := length_udpWith sport dport payload
  have before := udpSum_ones src dst (udpWith 0 sport dport payload) (by rw [size]; exact small)
  have after := udpSum_ones src dst (udpWith (udpChecksum src dst (udpWith 0 sport dport payload))
    sport dport payload) (by rw [size]; exact small)
  rw [sumWords_udpWith, size, udpChecksum_eq src dst _ (by rw [size]; exact small)] at after
  rw [size] at before
  have le := before.le
  have mod := before.mod
  rw [udpChecksum_eq src dst _ (by rw [size]; exact small)]
  apply after.eq_max_iff.mpr
  unfold IP_PROTO_UDP at *
  omega

end Datagram

section Frame

variable (dev : NetDev) (dstMac : Mac) (srcIp dstIp : Ip) (sport dport : Nat)
  (payload : List UInt8) (withCsum : Bool)

def udpField (srcIp dstIp : Ip) (sport dport : Nat) (payload : List UInt8) (withCsum : Bool) :
    Nat :=
  if withCsum then udpChecksum srcIp dstIp (udpWith 0 sport dport payload) else 0

theorem fields_udpFrame (small : UDP_HDR + payload.length < 65536) :
    let frame := padded (udpFrame dev dstMac srcIp dstIp sport dport payload withCsum)
    field frame 26 4 = srcIp.toList ∧ field frame 30 4 = dstIp.toList ∧
      frameUdp frame =
        udpWith (udpField srcIp dstIp sport dport payload withCsum) sport dport payload := by
  generalize csum : udpField srcIp dstIp sport dport payload withCsum = c
  have size := length_udpWith sport dport payload c
  generalize header : ip4Hdr (IP4_HDR + UDP_HDR + payload.length) (dev.tcpIsn % 2 ^ 16)
    IP_PROTO_UDP srcIp dstIp = ip
  have length : ip.length = IP4_HDR := by rw [← header, length_ip4Hdr]
  have split : padded (udpFrame dev dstMac srcIp dstIp sport dport payload withCsum) =
      ethHdr dstMac dev.mac ETH_TYPE_IPV4 ++ (ip ++ (udpWith c sport dport payload ++
        List.replicate (60 - (udpFrame dev dstMac srcIp dstIp sport dport payload withCsum).length)
          0)) := by
    rw [padded]
    nth_rewrite 1 [udpFrame]
    rw [header, show (if withCsum then udpChecksum srcIp dstIp (udpWith 0 sport dport payload)
      else 0) = c from csum, List.append_assoc, List.append_assoc]
  have inIp (off len : Nat) (inside : off + len ≤ IP4_HDR) (rest : Frame) :
      field (ethHdr dstMac dev.mac ETH_TYPE_IPV4 ++ (ip ++ rest)) (ETH_HDR + off) len =
        field ip off len := by
    rw [field_frame, field_append_left (by omega)]
  have inUdp (off len : Nat) (rest : Frame) :
      field (ethHdr dstMac dev.mac ETH_TYPE_IPV4 ++ (ip ++ rest)) (ETH_HDR + IP4_HDR + off) len =
        field rest off len := by
    rw [Nat.add_assoc, field_frame, field_append_right (by omega), length, Nat.add_sub_cancel_left]
  dsimp only
  rw [split]
  refine ⟨?_, ?_, ?_⟩
  · rw [show 26 = ETH_HDR + 12 from rfl, inIp 12 4 (by decide), ← header]
    rfl
  · rw [show 30 = ETH_HDR + 16 from rfl, inIp 16 4 (by decide), ← header]
    rfl
  · generalize List.replicate _ (0 : UInt8) = zeros
    have lengthField : field (udpWith c sport dport payload ++ zeros) 4 2 =
        Bytes.beBytes 2 (UDP_HDR + payload.length) := by
      rw [field_append_left (by rw [size, UDP_HDR]; omega)]
      rfl
    have datagram := inUdp 0 (UDP_HDR + payload.length) (udpWith c sport dport payload ++ zeros)
    rw [Nat.add_zero] at datagram
    rw [frameUdp, inUdp 4 2, lengthField, Bytes.beNat_beBytes, show 256 ^ 2 = 65536 from rfl,
      Nat.mod_eq_of_lt small, datagram, field_append_left (by rw [size]; omega), ← size, field_whole]

/-- The check of a frame succeeds unless the sum without the checksum is all ones. -/
theorem udpVerifies_udpFrame (small : UDP_HDR + payload.length < 65536) :
    UdpVerifies (padded (udpFrame dev dstMac srcIp dstIp sport dport payload true)) ↔
      udpSum srcIp.toList dstIp.toList (udpWith 0 sport dport payload) ≠ 0xFFFF := by
  obtain ⟨src, dst, datagram⟩ :=
    fields_udpFrame dev dstMac srcIp dstIp sport dport payload true small
  have size := length_udpWith sport dport payload 0
  have checks := udpSum_udpChecksum srcIp dstIp sport dport payload small
  have csum := udpChecksum_eq srcIp dstIp (udpWith 0 sport dport payload)
    (by rw [size]; exact small)
  have le := (udpSum_ones srcIp dstIp (udpWith 0 sport dport payload)
    (by rw [size]; exact small)).le
  have carried : Bytes.beNat (field (udpWith (udpField srcIp dstIp sport dport payload true)
      sport dport payload) 6 2) = 0xFFFF - udpSum srcIp.toList dstIp.toList
        (udpWith 0 sport dport payload) := by
    rw [show field (udpWith (udpField srcIp dstIp sport dport payload true) sport dport payload)
      6 2 = Bytes.beBytes 2 (udpField srcIp dstIp sport dport payload true) from rfl,
      Bytes.beNat_beBytes, udpField, if_pos rfl, csum]
    omega
  rw [UdpVerifies, src, dst, datagram, carried]
  constructor
  · rintro ⟨nonzero, _⟩ ones
    omega
  · intro short
    exact ⟨by omega, checks⟩

end Frame

/-- A datagram that is sent with a checksum carries one that is not zero and that the receiver's
check accepts, if and only if the one's complement sum of what it covers, the checksum field
taken as zero, is not all ones. -/
theorem udp_checksum_verifies_iff {dev dev' : NetDev} {dstMac : Mac} {srcIp dstIp : Ip}
    {sport dport : Nat} {payload : List UInt8}
    (sent : netSendUdpPktOpts dstMac srcIp dstIp sport dport payload true dev = (true, dev')) :
    (∃ frame, dev'.sent = dev.sent ++ [frame] ∧ UdpVerifies frame) ↔
      udpSum srcIp.toList dstIp.toList (udpWith 0 sport dport payload) ≠ 0xFFFF := by
  unfold netSendUdpPktOpts at sent
  split at sent
  · cases sent
  · rename_i accepted
    have small : UDP_HDR + payload.length < 65536 := by
      unfold NET_MTU at accepted
      unfold UDP_HDR
      omega
    rw [← udpVerifies_udpFrame dev dstMac srcIp dstIp sport dport payload small]
    rcases netTxRaw_cases (udpFrame dev dstMac srcIp dstIp sport dport payload true) dev with
      same | failed | passed
    · rw [same] at sent
      cases sent
    · rw [failed] at sent
      cases sent
    · rw [passed] at sent
      cases sent
      constructor
      · rintro ⟨frame, last, verifies⟩
        rwa [List.singleton_injective (List.append_cancel_left last)]
      · intro verifies
        exact ⟨_, rfl, verifies⟩

/-- A datagram of one byte between two hosts, on a device whose ring has room. -/
theorem udp_checksum_verifies_one_byte :
    let dev := NetDev.fresh
    let src : Ip := Bytes.ofList [10, 0, 0, 1]
    let dst : Ip := Bytes.ofList [10, 0, 0, 2]
    ∃ dev', netSendUdpPktOpts macBroadcast src dst 68 67 [1] true dev = (true, dev') ∧
      ∃ frame, dev'.sent = dev.sent ++ [frame] ∧ UdpVerifies frame := by
  have short : udpSum (Bytes.ofList [10, 0, 0, 1] : Ip).toList
      (Bytes.ofList [10, 0, 0, 2] : Ip).toList (udpWith 0 68 67 [1]) ≠ 0xFFFF := by
    decide
  exact ⟨_, rfl, (udp_checksum_verifies_iff rfl).mpr short⟩

/-- An empty datagram from port 60000 to port 379 is sent with the checksum zero. -/
theorem udp_checksum_zero :
    let sent := netSendUdpPktOpts macBroadcast (Bytes.ofList [10, 0, 0, 1])
      (Bytes.ofList [10, 0, 0, 2]) 60000 379 [] true NetDev.fresh
    sent.1 = true ∧ sent.2.sent.map (fun frame => field (frameUdp frame) 6 2) = [[0, 0]] := by
  decide

end SirpairOs.Net
