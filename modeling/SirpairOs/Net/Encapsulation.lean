import SirpairOs.Net.Echo

/-! The encapsulations that the link layer takes off: VLAN tags and LLC/SNAP headers. -/
namespace SirpairOs.Net

/-- An IPv4 packet: its header says how long it is. -/
structure Packet where
  bytes : List UInt8
  header : IP4_HDR ≤ bytes.length
  whole : Bytes.beNat (field bytes 2 2) = bytes.length

structure Tag where
  tpid : Nat
  tci : UInt16
  known : tpid = ETH_TYPE_VLAN ∨ tpid = ETH_TYPE_VLAN_QINQ

/-- The bytes that follow the MAC addresses when the packet is behind VLAN tags. -/
def tagged (packet : List UInt8) : List Tag → List UInt8
  | [] => Bytes.beBytes 2 ETH_TYPE_IPV4 ++ packet
  | tag :: tags => Bytes.beBytes 2 tag.tpid ++ (Bytes.beBytes 2 tag.tci.toNat ++ tagged packet tags)

def llcSnap : List UInt8 := [0xAA, 0xAA, 0x03, 0x00, 0x00, 0x00, 0x08, 0x00]

inductive Encapsulation where
  /-- An 802.3 frame. -/
  | snap
  /-- One to four VLAN tags. -/
  | vlan (tags : List Tag) (depth : 1 ≤ tags.length ∧ tags.length ≤ 4)

def Encapsulation.body (packet : Packet) : Encapsulation → List UInt8
  | snap => Bytes.beBytes 2 (8 + packet.bytes.length) ++ (llcSnap ++ packet.bytes)
  | vlan tags _ => tagged packet.bytes tags

/-- The length of an 802.3 frame is at most 1500. -/
def Encapsulation.Fits (packet : Packet) : Encapsulation → Prop
  | snap => 8 + packet.bytes.length ≤ 0x05DC
  | vlan _ _ => True

def macs (dst src : Mac) : List UInt8 := dst.toList ++ src.toList

/-- The frame was received at the start of the buffer; padding may follow it. -/
structure Carries (r : Received) (bytes : List UInt8) : Prop where
  within : bytes.length ≤ r.len
  bound : r.len ≤ NET_PKT_BUF
  starts : r.frame.Lies 0 bytes

/-- The packet is processed as if it had come in a plain Ethernet II frame: the addresses and the
bytes of the packet that are handed on are the same, and so is what becomes of the device. -/
def Transparent (packet : Packet) (dst src : Mac) (e : Encapsulation) : Prop :=
  ∀ plain wrapped : Received, Carries plain (macs dst src ++ tagged packet.bytes []) →
    Carries wrapped (macs dst src ++ e.body packet) →
    Agree (ETH_HDR + packet.bytes.length) (unwrap wrapped).frame (unwrap plain).frame ∧
      ∀ dev : NetDev, netProcessFrame wrapped dev = netProcessFrame plain dev

theorem be16_of_lies {b : Buffer} {off value : Nat} (small : value < 65536)
    (lies : b.Lies off (Bytes.beBytes 2 value)) : be16 b off = value := by
  have part : b.slice off 2 = Bytes.beBytes 2 value := lies.slice
  rw [be16, part, Bytes.beNat_beBytes]
  exact Nat.mod_eq_of_lt small

/-- Taking a tag off moves the rest of the frame four bytes down. -/
theorem Carries.untagged {r : Received} {front tag rest : List UInt8} {next : Nat}
    (small : next < 65536) (twelve : front.length = 12) (four : tag.length = 4)
    (carries : Carries r (front ++ (tag ++ (Bytes.beBytes 2 next ++ rest)))) :
    Carries ⟨(r.frame.splice 14 (r.frame.slice 18 (r.len - 18))).splice 12
      (Bytes.beBytes 2 (be16 r.frame 16)), r.len - 4⟩ (front ++ (Bytes.beBytes 2 next ++ rest)) := by
  obtain ⟨within, bound, starts⟩ := carries
  simp only [Bytes.lies_append, twelve, four, Bytes.length_beBytes, Nat.zero_add] at starts
  obtain ⟨macs, _, etype, body⟩ := starts
  simp only [List.length_append, Bytes.length_beBytes, twelve, four] at within
  rw [be16_of_lies small etype]
  have two : (Bytes.beBytes 2 next).length = 2 := Bytes.length_beBytes 2 next
  refine ⟨?_, ?_, ?_⟩
  · simp only [List.length_append, Bytes.length_beBytes, twelve]
    omega
  · dsimp only
    omega
  · simp only [Bytes.lies_append, twelve, Bytes.length_beBytes, Nat.zero_add]
    refine ⟨(macs.kept (Or.inl (by omega))).kept (Or.inl (by omega)), .spliced (by omega), ?_⟩
    apply Bytes.Lies.kept _ (Or.inr (by omega))
    exact Bytes.Lies.moved 0 body (by omega) (by omega)

/-- The type field in front of the packet and its tags. -/
def outerType : List Tag → Nat
  | [] => ETH_TYPE_IPV4
  | tag :: _ => tag.tpid

theorem Tag.tpid_lt (tag : Tag) : tag.tpid < 65536 := by
  obtain known | known := tag.known
  all_goals
    rw [known]
    decide

theorem outerType_lt (tags : List Tag) : outerType tags < 65536 := by
  cases tags with
  | nil => decide
  | cons tag tags => exact tag.tpid_lt

theorem tagged_eq (packet : List UInt8) (tags : List Tag) :
    ∃ rest, tagged packet tags = Bytes.beBytes 2 (outerType tags) ++ rest := by
  cases tags with
  | nil => exact ⟨_, rfl⟩
  | cons tag tags => exact ⟨_, rfl⟩

theorem Carries.etypeOf {r : Received} {front packet : List UInt8} {tags : List Tag}
    (twelve : front.length = 12) (carries : Carries r (front ++ tagged packet tags)) :
    etypeOf r.frame = outerType tags := by
  obtain ⟨rest, body⟩ := tagged_eq packet tags
  have starts := carries.starts
  rw [body, Bytes.lies_append, Bytes.lies_append, twelve] at starts
  exact be16_of_lies (outerType_lt tags) starts.2.1

theorem Carries.untag_one {front packet : List UInt8} (twelve : front.length = 12) {tag : Tag}
    {tags : List Tag} {r : Received} (carries : Carries r (front ++ tagged packet (tag :: tags)))
    (depth : Nat) : ∃ r', Net.untag (depth + 1) r = Net.untag depth r' ∧
      Carries r' (front ++ tagged packet tags) := by
  have etype := carries.etypeOf twelve
  obtain ⟨rest, body⟩ := tagged_eq packet tags
  have long : r.len ≥ 18 := by
    have within := carries.within
    simp only [tagged, body, List.length_append, Bytes.length_beBytes, twelve] at within
    omega
  rw [tagged, ← List.append_assoc (Bytes.beBytes 2 tag.tpid), body] at carries
  have four : (Bytes.beBytes 2 tag.tpid ++ Bytes.beBytes 2 tag.tci.toNat).length = 4 := rfl
  rw [Net.untag, etype, if_pos ⟨tag.known, long⟩, body]
  exact ⟨_, rfl, carries.untagged (outerType_lt tags) twelve four⟩

/-- The loop takes up to four tags off, whatever the frame is padded with. -/
theorem Carries.untag {front packet : List UInt8} (twelve : front.length = 12)
    {tags : List Tag} {depth : Nat} (few : tags.length ≤ depth) {r : Received}
    (carries : Carries r (front ++ tagged packet tags)) :
    Carries (untag depth r) (front ++ tagged packet []) := by
  induction tags generalizing r depth with
  | nil =>
    cases depth with
    | zero => exact carries
    | succ depth =>
      have plain : ¬ (ETH_TYPE_IPV4 = ETH_TYPE_VLAN ∨ ETH_TYPE_IPV4 = ETH_TYPE_VLAN_QINQ) := by
        decide
      rw [Net.untag, carries.etypeOf twelve, if_neg fun test => plain test.1]
      exact carries
  | cons tag tags ih =>
    cases depth with
    | zero => exact absurd few (by rw [List.length_cons]; omega)
    | succ depth =>
      obtain ⟨r', round, later⟩ := carries.untag_one twelve depth
      rw [round]
      exact ih (by rw [List.length_cons] at few; omega) later

/-- The MAC addresses that are handed on: the source address is made up of the beginnings of both. -/
def snapMacs (dst src : Mac) : List UInt8 :=
  dst.toList ++ (src.toList.take 2 ++ dst.toList.take 4)

/-- The packet that is handed on: it starts with the source address and the length field of the
802.3 header. -/
def snapPacket (src : Mac) (packet : List UInt8) : List UInt8 :=
  (src.toList ++ (Bytes.beBytes 2 (8 + packet.length) ++ packet)).take packet.length

variable (dst src : Mac)

@[simp] theorem length_macs : (macs dst src).length = 12 := by
  rw [macs, List.length_append, Bytes.length_toList, Bytes.length_toList]

@[simp] theorem length_snapMacs : (snapMacs dst src).length = 12 := by
  simp only [snapMacs, List.length_append, List.length_take, Bytes.length_toList]
  decide

@[simp] theorem length_snapPacket (src : Mac) (packet : List UInt8) :
    (snapPacket src packet).length = packet.length := by
  simp only [snapPacket, List.length_append, List.length_take, Bytes.length_toList,
    Bytes.length_beBytes]
  omega

theorem Carries.snap {r : Received} {dst src : Mac} {packet : List UInt8}
    (fits : 8 + packet.length ≤ 0x05DC)
    (carries : Carries r (macs dst src ++
      (Bytes.beBytes 2 (8 + packet.length) ++ (llcSnap ++ packet)))) :
    Carries (netL2Try8023SnapIpv4 r) (snapMacs dst src ++ tagged (snapPacket src packet) []) := by
  obtain ⟨within, bound, starts⟩ := carries
  have eight : llcSnap.length = 8 := rfl
  simp only [List.length_append, length_macs, Bytes.length_beBytes, eight] at within
  rw [macs] at starts
  simp only [Bytes.lies_append, List.length_append, Bytes.length_toList, Bytes.length_beBytes,
    Nat.zero_add, eight] at starts
  obtain ⟨⟨dstMac, srcMac⟩, length, llc, body⟩ := starts
  have etype : Net.etypeOf r.frame = 8 + packet.length := be16_of_lies (by omega) length
  rw [netL2Try8023SnapIpv4, if_pos ⟨by omega, by omega, llc.slice⟩]
  refine ⟨?_, ?_, ?_⟩
  · simp only [List.length_append, tagged, length_snapMacs, length_snapPacket, Bytes.length_beBytes]
    omega
  · dsimp only
    omega
  · have two : (Bytes.beBytes 2 ETH_TYPE_IPV4).length = 2 := rfl
    have header : (r.frame.slice 0 14).length = 14 := Bytes.length_slice _ _ _
    have six (mac : Mac) : mac.toList.length = 6 := Bytes.length_toList mac
    have sixDst := six dst
    rw [snapMacs, tagged, snapPacket]
    simp only [Bytes.lies_append, List.length_append, List.length_take, six, two, Nat.zero_add]
    refine ⟨⟨(dstMac.kept (Or.inl (by omega))).kept (Or.inl (by omega)), ?_, ?_⟩, ?_, ?_⟩
    · exact ((srcMac.take 2).kept (Or.inl (by simp [six]))).kept (Or.inl (by simp [six]))
    · apply Bytes.Lies.kept _ (Or.inl (by simp [six]))
      exact Bytes.Lies.moved 0 (dstMac.take 4) (by simp [six]) (by simp [six, NET_PKT_BUF])
    · exact .spliced (by rw [two]; decide)
    · apply Bytes.Lies.take
      simp only [Bytes.lies_append]
      refine ⟨?_, ?_, ?_⟩
      · apply Bytes.Lies.kept _ (Or.inr (by rw [two]; decide))
        exact Bytes.Lies.moved 6 srcMac (by simp [six]) (by simp [six, NET_PKT_BUF])
      · apply Bytes.Lies.kept _ (Or.inr (by rw [two, six]; decide))
        exact Bytes.Lies.moved 12 length (by simp) (by simp [NET_PKT_BUF])
      · exact (body.kept (Or.inr (by simp [header]))).kept (Or.inr (by simp [two]))

theorem outerType_known (tags : List Tag) :
    netKnownEtype (outerType tags) ∧ ¬ outerType tags ≤ 0x05DC := by
  cases tags with
  | nil => decide
  | cons tag tags =>
    rw [outerType]
    obtain known | known := tag.known
    all_goals
      rw [known]
      decide

section Unwrap

variable {r : Received} {dst src : Mac} {packet : List UInt8}

/-- A packet behind at most four tags is handed on as it is. -/
theorem Carries.unwrap_tagged {tags : List Tag} (few : tags.length ≤ 4)
    (carries : Carries r (macs dst src ++ tagged packet tags)) :
    Carries (unwrap r) (macs dst src ++ tagged packet []) := by
  have etype := carries.etypeOf (length_macs dst src)
  obtain ⟨known, large⟩ := outerType_known tags
  have aligned : realign r = r := by
    rw [realign, etype, known, if_neg fun test => Bool.noConfusion test.1]
  have plain : netL2Try8023SnapIpv4 r = r := by
    rw [netL2Try8023SnapIpv4, etype, if_neg fun test => large test.2.1]
  rw [unwrap, aligned, plain]
  exact carries.untag (length_macs dst src) few

theorem Carries.unwrap_plain (carries : Carries r (macs dst src ++ tagged packet [])) :
    Carries (unwrap r) (macs dst src ++ tagged packet []) :=
  carries.unwrap_tagged (show ([] : List Tag).length ≤ 4 from Nat.zero_le 4)

theorem Carries.unwrap_snap (fits : 8 + packet.length ≤ 0x05DC)
    (carries : Carries r (macs dst src ++
      (Bytes.beBytes 2 (8 + packet.length) ++ (llcSnap ++ packet)))) :
    Carries (unwrap r) (snapMacs dst src ++ tagged (snapPacket src packet) []) := by
  have starts := carries.starts
  simp only [Bytes.lies_append, length_macs, Bytes.length_beBytes, Nat.zero_add] at starts
  obtain ⟨_, _, llc, _⟩ := starts
  have front : be16 r.frame 14 = 0xAAAA :=
    be16_of_lies (by decide) (Bytes.lies_append.mp (show r.frame.Lies 14
      (Bytes.beBytes 2 0xAAAA ++ [0x03, 0x00, 0x00, 0x00, 0x08, 0x00]) from llc)).1
  have aligned : realign r = r := by
    rw [realign, front, if_neg fun test => Bool.noConfusion test.2.2]
  rw [unwrap, aligned]
  exact (carries.snap fits).untag (length_snapMacs dst src) (Nat.zero_le 4)

end Unwrap

section Padding

variable {frame : Buffer} {len : Nat} (long : ETH_HDR + ipTotLen frame ≤ len)
include long

theorem udpHdrOk_unpadded (ihl : Nat) :
    udpHdrOk frame len ihl = udpHdrOk frame (ETH_HDR + ipTotLen frame) ihl := by
  apply decide_eq_decide.mpr
  constructor
  · intro ok
    exact ⟨ok.1, by omega, ok.2.2⟩
  · intro ok
    exact ⟨ok.1, by omega, ok.2.2⟩

theorem udpPayload_unpadded (ihl : Nat) :
    udpPayload frame len ihl = udpPayload frame (ETH_HDR + ipTotLen frame) ihl := by
  unfold udpPayload
  dsimp only
  rw [if_neg (show ¬ ETH_HDR + ipTotLen frame > len by omega),
    if_neg (show ¬ ETH_HDR + ipTotLen frame > ETH_HDR + ipTotLen frame by omega)]
  by_cases short : ipTotLen frame < ihl + UDP_HDR
  · simp only [short, true_or, ↓reduceIte, ite_self]
  rw [if_neg (show ¬ len < ETH_HDR + ihl + UDP_HDR by omega),
    if_neg (show ¬ ETH_HDR + ipTotLen frame < ETH_HDR + ihl + UDP_HDR by omega)]
  split
  · rfl
  · rename_i sound
    rw [Nat.min_eq_left (by omega), Nat.min_eq_left (by omega)]

theorem netHandleIpv4_unpadded (header : IP4_HDR ≤ ipTotLen frame) (dev : NetDev) :
    netHandleIpv4 frame len dev = netHandleIpv4 frame (ETH_HDR + ipTotLen frame) dev := by
  have icmp : netHandleIcmp frame len (ipHdrLen frame) dev =
      netHandleIcmp frame (ETH_HDR + ipTotLen frame) (ipHdrLen frame) dev := by
    unfold netHandleIcmp
    by_cases short : ipTotLen frame < ipHdrLen frame + ICMP_ECHO
    · rw [if_pos (.inr short), if_pos (.inr short)]
    · have received : ¬ len < ETH_HDR + ipHdrLen frame + ICMP_ECHO := by omega
      have inside : ¬ ETH_HDR + ipTotLen frame < ETH_HDR + ipHdrLen frame + ICMP_ECHO := by omega
      simp only [received, inside]
  unfold netHandleIpv4 ipForUs udpIsDhcpToClient netHandleUdp
  dsimp only
  rw [udpHdrOk_unpadded long, udpPayload_unpadded long, icmp]
  have received : ¬ len < ETH_HDR + IP4_HDR := by omega
  have inside : ¬ ETH_HDR + ipTotLen frame < ETH_HDR + IP4_HDR := by omega
  simp only [received, inside]

theorem learnHint_unpadded (header : IP4_HDR ≤ ipTotLen frame) (dev : NetDev) :
    learnHint ⟨frame, len⟩ dev = learnHint ⟨frame, ETH_HDR + ipTotLen frame⟩ dev := by
  unfold learnHint udpIsSsdp udpIsDhcpToServer udpIsDhcpToClient
  dsimp only
  rw [udpHdrOk_unpadded long]
  have received : len ≥ ETH_HDR + IP4_HDR := by omega
  have inside : ETH_HDR + ipTotLen frame ≥ ETH_HDR + IP4_HDR := by omega
  simp only [received, inside]

end Padding

section Process

variable {r : Received} {front : List UInt8} {packet : Packet} (twelve : front.length = 12)
include twelve

/-- The packet has been handed on: its bytes lie behind the Ethernet header. -/
theorem Carries.total {u : Received} (carries : Carries u (front ++ tagged packet.bytes [])) :
    ipTotLen u.frame = packet.bytes.length ∧ ETH_HDR + packet.bytes.length ≤ u.len := by
  have within := carries.within
  have starts := carries.starts
  have header := packet.header
  have whole := packet.whole
  simp only [tagged, List.length_append, Bytes.length_beBytes, twelve] at within
  rw [tagged, Bytes.lies_append, Bytes.lies_append, twelve, Bytes.length_beBytes] at starts
  unfold IP4_HDR at header
  have part : u.frame.slice 16 2 = field packet.bytes 2 2 :=
    starts.2.2.part (show 2 + 2 ≤ packet.bytes.length by omega)
  refine ⟨?_, by unfold ETH_HDR; omega⟩
  rw [ipTotLen, be16, part, whole]

/-- What becomes of the device when the packet is handed on. -/
theorem netProcessFrame_carries (long : ETH_HDR ≤ r.len)
    (carries : Carries (unwrap r) (front ++ tagged packet.bytes [])) (dev : NetDev) :
    netProcessFrame r dev = netHandleIpv4 (unwrap r).frame (ETH_HDR + packet.bytes.length)
      (learnHint ⟨(unwrap r).frame, ETH_HDR + packet.bytes.length⟩ dev) := by
  obtain ⟨total, within⟩ := carries.total twelve
  have header := packet.header
  rw [netProcessFrame_ipv4 long (carries.etypeOf twelve)]
  generalize unwrap r = u at *
  obtain ⟨frame, len⟩ := u
  dsimp only at *
  rw [← total] at within header ⊢
  rw [netHandleIpv4_unpadded within header, learnHint_unpadded within header]

/-- The same packet behind the same addresses has the same effect. -/
theorem netProcessFrame_agree {r' : Received} (long : ETH_HDR ≤ r.len) (long' : ETH_HDR ≤ r'.len)
    (carries : Carries (unwrap r) (front ++ tagged packet.bytes []))
    (carries' : Carries (unwrap r') (front ++ tagged packet.bytes [])) :
    Agree (ETH_HDR + packet.bytes.length) (unwrap r').frame (unwrap r).frame ∧
      ∀ dev : NetDev, netProcessFrame r' dev = netProcessFrame r dev := by
  have size : (front ++ tagged packet.bytes []).length = ETH_HDR + packet.bytes.length := by
    simp only [tagged, List.length_append, Bytes.length_beBytes, twelve, ETH_HDR]
    omega
  have agree : Agree (ETH_HDR + packet.bytes.length) (unwrap r').frame (unwrap r).frame := by
    intro i inside
    rw [← size] at inside
    have left := carries'.starts i inside
    have right := carries.starts i inside
    rw [Nat.zero_add] at left right
    rw [left, right]
  refine ⟨agree, ?_⟩
  intro dev
  rw [netProcessFrame_carries twelve long carries, netProcessFrame_carries twelve long' carries']
  have same : Same ⟨(unwrap r).frame, ETH_HDR + packet.bytes.length⟩
      ⟨(unwrap r').frame, ETH_HDR + packet.bytes.length⟩ := ⟨rfl, agree⟩
  rw [same.learnHint (Nat.le_add_right _ _)]
  have inside := (carries.total twelve).1
  exact netHandleIpv4_same (u := ⟨(unwrap r).frame, _⟩) agree fun _ => by dsimp only; omega

end Process

/-- The bytes of an 802.3 frame that are handed on happen to be the right ones. -/
def Encapsulation.Coincides (packet : Packet) (dst src : Mac) : Encapsulation → Prop
  | snap => snapMacs dst src = macs dst src ∧ snapPacket src packet.bytes = packet.bytes
  | vlan _ _ => True

theorem Carries.eth_le {r : Received} {dst src : Mac} {body : List UInt8} (two : 2 ≤ body.length)
    (carries : Carries r (macs dst src ++ body)) : ETH_HDR ≤ r.len := by
  have within := carries.within
  rw [List.length_append, length_macs] at within
  unfold ETH_HDR
  omega

theorem transparent_vlan (packet : Packet) (dst src : Mac) {tags : List Tag}
    (depth : 1 ≤ tags.length ∧ tags.length ≤ 4) : Transparent packet dst src (.vlan tags depth) := by
  intro plain wrapped carries carries'
  have two (tags : List Tag) : 2 ≤ (tagged packet.bytes tags).length := by
    obtain ⟨rest, body⟩ := tagged_eq packet.bytes tags
    rw [body, List.length_append, Bytes.length_beBytes]
    omega
  exact netProcessFrame_agree (length_macs dst src) (carries.eth_le (two []))
    (carries'.eth_le (two tags)) carries.unwrap_plain (carries'.unwrap_tagged depth.2)

def received (bytes : List UInt8) : Received := ⟨Bytes.ofList bytes, bytes.length⟩

theorem carries_received {bytes : List UInt8} (fits : bytes.length ≤ NET_PKT_BUF) :
    Carries (received bytes) bytes := by
  refine ⟨le_refl _, fits, ?_⟩
  intro i inside
  rw [received]
  rw [Nat.zero_add, Bytes.byte_ofList _ _ (by omega)]

theorem transparent_snap_iff {packet : Packet} (fits : 8 + packet.bytes.length ≤ 0x05DC) :
    Transparent packet dst src .snap ↔
      snapMacs dst src = macs dst src ∧ snapPacket src packet.bytes = packet.bytes := by
  have two : 2 ≤ (tagged packet.bytes []).length := by
    rw [tagged, List.length_append, Bytes.length_beBytes]
    omega
  have two' : 2 ≤ (Encapsulation.body packet .snap).length := by
    rw [Encapsulation.body, List.length_append, Bytes.length_beBytes]
    omega
  constructor
  · intro transparent
    have room : (macs dst src ++ tagged packet.bytes []).length ≤ NET_PKT_BUF := by
      simp only [tagged, List.length_append, length_macs, Bytes.length_beBytes, NET_PKT_BUF]
      omega
    have room' : (macs dst src ++ Encapsulation.body packet .snap).length ≤ NET_PKT_BUF := by
      simp only [Encapsulation.body, List.length_append, length_macs, Bytes.length_beBytes,
        NET_PKT_BUF, llcSnap, List.length_cons, List.length_nil]
      omega
    obtain ⟨plain, carries⟩ : ∃ plain, Carries plain _ := ⟨_, carries_received room⟩
    obtain ⟨wrapped, carries'⟩ : ∃ wrapped, Carries wrapped _ := ⟨_, carries_received room'⟩
    have agree := (transparent plain wrapped carries carries').1
    have right : (unwrap wrapped).frame.Lies 0 (macs dst src ++ tagged packet.bytes []) := by
      intro i inside
      rw [← carries.unwrap_plain.starts i inside]
      apply agree
      simp only [tagged, List.length_append, length_macs, Bytes.length_beBytes] at inside
      unfold ETH_HDR
      omega
    have handed := (carries'.unwrap_snap fits).starts
    have same := right.unique (by simp [tagged]) handed
    obtain ⟨addresses, rest⟩ := List.append_inj same (by simp)
    exact ⟨addresses, List.append_cancel_left rest⟩
  · intro same plain wrapped carries carries'
    have handed := carries'.unwrap_snap fits
    rw [same.1, same.2] at handed
    exact netProcessFrame_agree (length_macs dst src) (carries.eth_le two) (carries'.eth_le two')
      carries.unwrap_plain handed

/-- VLAN tags are transparent. An 802.3 frame is only if the packet happens to repeat the source
address and the length of the frame, because it is read eight bytes too early. -/
theorem encapsulation_transparent_iff (packet : Packet) (dst src : Mac) {e : Encapsulation}
    (fits : e.Fits packet) : Transparent packet dst src e ↔ e.Coincides packet dst src := by
  cases e with
  | snap => exact transparent_snap_iff dst src fits
  | vlan tags depth => exact iff_of_true (transparent_vlan packet dst src depth) trivial

def echoRequest : Packet where
  bytes := ip4Hdr 28 0 IP_PROTO_ICMP (Bytes.ofList [10, 0, 2, 2]) (Bytes.ofList [10, 0, 2, 15]) ++
    icmp ICMP_ECHO_REQ 0 0 []
  header := by decide +kernel
  whole := by decide +kernel

theorem encapsulation_transparent_echoRequest : Encapsulation.snap.Fits echoRequest ∧
      (Transparent echoRequest Bytes.zero Bytes.zero .snap ↔
        Encapsulation.snap.Coincides echoRequest Bytes.zero Bytes.zero) :=
  have fits : Encapsulation.snap.Fits echoRequest := by
    unfold Encapsulation.Fits
    decide +kernel
  ⟨fits, encapsulation_transparent_iff echoRequest Bytes.zero Bytes.zero fits⟩

/-- The request is answered when it comes in a plain frame, and not in an 802.3 frame. -/
theorem snap_request_not_answered : (responses answering
        (received (macs Bytes.zero Bytes.zero ++ tagged echoRequest.bytes []))).length = 1 ∧
      responses answering (received (macs Bytes.zero Bytes.zero ++
        Encapsulation.snap.body echoRequest)) = [] ∧
      ¬ Transparent echoRequest Bytes.zero Bytes.zero .snap := by
  refine ⟨by decide +kernel, by decide +kernel, ?_⟩
  rw [transparent_snap_iff _ _ (by decide +kernel)]
  decide +kernel

end SirpairOs.Net
