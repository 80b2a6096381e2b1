import SirpairOs.Net.DnsName

/-! Answers of a DNS server: `dns_parse_a_answer` of `kernel/microps/sirpair_sock_user.c`. -/
namespace SirpairOs.Net

def ipSameSubnet (a b m : Ip) : Bool := decide (∀ i, a i &&& m i = b i &&& m i)

def dnsReplySrcOk (src myip gw mask dns : Ip) : Bool :=
  if src = dns ∨ src = gw then true else ipSameSubnet myip src mask

def readShort (off : Nat) : ByteReader Nat := do
  let bytes ← readBytes off 2
  pure (Bytes.beNat bytes)

def skipQuestions (paylen : Nat) : Nat → Nat → ByteReader (Option Nat)
  | 0, off => pure (some off)
  | left + 1, off => do
    match ← dnsSkipName paylen off with
    | none => pure none
    | some off =>
      if off + 4 > paylen then pure none else skipQuestions paylen left (off + 4)

def findAddress (paylen : Nat) : Nat → Nat → ByteReader (Option Nat)
  | 0, _ => pure none
  | left + 1, off => do
    match ← dnsSkipName paylen off with
    | none => pure none
    | some off =>
      if off + 10 > paylen then pure none
      else do
        let typ ← readShort off
        let cls ← readShort (off + 2)
        let rdlen ← readShort (off + 8)
        if off + 10 + rdlen > paylen then pure none
        else if typ = 1 ∧ rdlen = 4 ∧ (cls = 1 ∨ cls = 255) then do
          let address ← readBytes (off + 10) 4
          pure (some (Bytes.beNat address))
        else findAddress paylen left (off + 10 + rdlen)

/-- `sizeof(struct dns_hdr)` -/
def DNS_HDR : Nat := 12

/-- `dns_parse_a_answer`; the address is `none` when the result is `-1`. -/
def dnsParseAAnswer (paylen wantId : Nat) (srcIp myip gw mask dns : Ip) : ByteReader (Option Nat) :=
  if paylen < DNS_HDR then pure none
  else do
    let id ← readShort 0
    if id ≠ wantId then pure none
    else do
      let flags ← readShort 2
      if flags &&& 0x8000 = 0 then pure none
      else if dnsReplySrcOk srcIp myip gw mask dns = false then pure none
      else do
        let qd ← readShort 4
        let an ← readShort 6
        if an = 0 then pure none
        else
          match ← skipQuestions paylen qd DNS_HDR with
          | none => pure none
          | some off => findAddress paylen an off

/-- A name of at most 64 labels, compressed or not. -/
structure DnsName where
  labels : List Label
  ending : NameEnd
  few : labels.length ≤ 64

def DnsName.wire (name : DnsName) : List UInt8 := wireLabels name.labels ++ name.ending.wire

def wireShort (value : UInt16) : List UInt8 := Bytes.beBytes 2 value.toNat

structure Question where
  name : DnsName
  typ : UInt16
  cls : UInt16

def Question.wire (question : Question) : List UInt8 :=
  question.name.wire ++ (wireShort question.typ ++ wireShort question.cls)

structure Record where
  name : DnsName
  typ : UInt16
  cls : UInt16
  ttl : Bytes 4
  data : List UInt8
  short : data.length < 65536

/-- The part of a record between its name and its data. -/
def Record.fixed (record : Record) : List UInt8 :=
  wireShort record.typ ++ (wireShort record.cls ++ (record.ttl.toList ++
    Bytes.beBytes 2 record.data.length))

def Record.wire (record : Record) : List UInt8 :=
  record.name.wire ++ (record.fixed ++ record.data)

/-- A record of type A with four bytes of data and of class IN or ANY. -/
def Record.isAddress (record : Record) : Bool :=
  record.typ = 1 ∧ record.data.length = 4 ∧ (record.cls = 1 ∨ record.cls = 255)

/-- A response, with any authority and additional records after its answers. -/
structure Response where
  id : UInt16
  flags : UInt16
  response : flags.toNat &&& 0x8000 ≠ 0
  questions : List Question
  answers : List Record
  counted : questions.length < 65536 ∧ answers.length < 65536
  nscount : UInt16
  arcount : UInt16
  others : List UInt8

namespace Response

def header (message : Response) : List UInt8 :=
  wireShort message.id ++ (wireShort message.flags ++
    (Bytes.beBytes 2 message.questions.length ++ (Bytes.beBytes 2 message.answers.length ++
      (wireShort message.nscount ++ wireShort message.arcount))))

def wire (message : Response) : List UInt8 :=
  message.header ++ (message.questions.flatMap Question.wire ++
    (message.answers.flatMap Record.wire ++ message.others))

def address (message : Response) : Option Nat :=
  (message.answers.find? Record.isAddress).map fun record => Bytes.beNat record.data

end Response

theorem Question.length_wire (question : Question) :
    question.wire.length = question.name.wire.length + 4 := by
  rw [wire, List.length_append]
  rfl

theorem Question.wire_pos (question : Question) : 0 < question.wire.length := by
  rw [question.length_wire]
  omega

namespace Record

variable (record : Record)

theorem length_fixed : record.fixed.length = 10 := by
  simp only [fixed, wireShort, List.length_append, Bytes.length_beBytes, Bytes.length_toList]

theorem length_wire : record.wire.length = record.name.wire.length + 10 + record.data.length := by
  rw [wire, List.length_append, List.length_append, record.length_fixed, Nat.add_assoc]

theorem wire_pos : 0 < record.wire.length := by
  rw [record.length_wire]
  omega

theorem isAddress_iff : record.isAddress ↔ record.typ.toNat = 1 ∧ record.data.length = 4 ∧
    (record.cls.toNat = 1 ∨ record.cls.toNat = 255) := by
  rw [isAddress, decide_eq_true_iff, ← UInt16.toNat_inj, ← UInt16.toNat_inj, ← UInt16.toNat_inj]
  rfl

end Record

theorem skipLabels_only (mlen off steps : Nat) : (skipLabels mlen off steps).Only (· < mlen) := by
  generalize left : mlen - off = n
  induction n using Nat.strongRecOn generalizing off steps with
  | ind n ih =>
    rw [skipLabels]
    split
    · rename_i inside
      apply Prog.Only.bind (ByteReader.readByte_only inside)
      intro c
      split
      · trivial
      split
      · split <;> trivial
      split
      · trivial
      split
      · trivial
      exact ih (mlen - (off + 1 + c.toNat)) (by omega) _ _ rfl
    · trivial

theorem readShort_only {off n : Nat} (inside : off + 2 ≤ n) : (readShort off).Only (· < n) := by
  apply Prog.Only.bind (ByteReader.readBytes_only inside)
  intro bytes
  trivial

theorem skipQuestions_only (paylen left off : Nat) :
    (skipQuestions paylen left off).Only (· < paylen) := by
  induction left generalizing off with
  | zero => trivial
  | succ left ih =>
    apply Prog.Only.bind (skipLabels_only paylen off 0)
    intro skipped
    cases skipped with
    | none => trivial
    | some next =>
      dsimp only
      split
      · trivial
      · exact ih (next + 4)

theorem findAddress_only (paylen left off : Nat) :
    (findAddress paylen left off).Only (· < paylen) := by
  induction left generalizing off with
  | zero => trivial
  | succ left ih =>
    apply Prog.Only.bind (skipLabels_only paylen off 0)
    intro skipped
    cases skipped with
    | none => trivial
    | some next =>
      dsimp only
      split
      · trivial
      apply Prog.Only.bind (readShort_only (by omega))
      intro typ
      apply Prog.Only.bind (readShort_only (by omega))
      intro cls
      apply Prog.Only.bind (readShort_only (by omega))
      intro rdlen
      split
      · trivial
      split
      · rename_i matching
        apply Prog.Only.bind (ByteReader.readBytes_only (by omega))
        intro address
        trivial
      · exact ih (next + 10 + rdlen)

theorem dnsParseAAnswer_only (paylen wantId : Nat) (srcIp myip gw mask dns : Ip) :
    (dnsParseAAnswer paylen wantId srcIp myip gw mask dns).Only (· < paylen) := by
  unfold dnsParseAAnswer
  split
  · trivial
  rename_i long
  have header (off : Nat) (inside : off + 2 ≤ DNS_HDR) : (readShort off).Only (· < paylen) :=
    readShort_only (by omega)
  apply Prog.Only.bind (header 0 (by decide))
  intro id
  split
  · trivial
  apply Prog.Only.bind (header 2 (by decide))
  intro flags
  split
  · trivial
  split
  · trivial
  apply Prog.Only.bind (header 4 (by decide))
  intro qd
  apply Prog.Only.bind (header 6 (by decide))
  intro an
  split
  · trivial
  apply Prog.Only.bind (skipQuestions_only paylen qd DNS_HDR)
  intro skipped
  cases skipped with
  | none => trivial
  | some off => exact findAddress_only paylen an off

section Values

variable {mem : Nat → UInt8} {d after : List UInt8} {off : Nat} (holds : ByteReader.Holds mem d)
include holds

theorem readShort_value {value : Nat} (small : value < 65536)
    (placed : d.drop off = Bytes.beBytes 2 value ++ after) : (readShort off).value mem = value := by
  have read : (readBytes off 2).value mem = Bytes.beBytes 2 value :=
    ByteReader.value_readBytes_part holds placed
  rw [readShort, ByteReader.value_bind, read, ByteReader.value_pure, Bytes.beNat_beBytes]
  exact Nat.mod_eq_of_lt small

theorem dnsSkipName_value (name : DnsName) (placed : d.drop off = name.wire ++ after) :
    (dnsSkipName d.length off).value mem = some (off + name.wire.length) := by
  rw [DnsName.wire, List.append_assoc] at placed
  rw [dnsSkipName, skipLabels_value holds name.labels name.ending (Nat.zero_le 64) placed,
    Nat.zero_add, if_pos name.few]
  rfl

theorem skipQuestions_value (questions : List Question)
    (placed : d.drop off = questions.flatMap Question.wire ++ after) :
    (skipQuestions d.length questions.length off).value mem =
      some (off + (questions.flatMap Question.wire).length) := by
  induction questions generalizing off with
  | nil => rfl
  | cons question questions ih =>
    rw [List.flatMap_cons, List.append_assoc] at placed
    have later := ByteReader.drop_part placed
    have inside := ByteReader.part_inside placed question.wire_pos
    rw [Question.wire, List.append_assoc] at placed
    rw [List.length_cons, skipQuestions, ByteReader.value_bind,
      dnsSkipName_value holds question.name placed]
    dsimp only
    rw [if_neg (by rw [question.length_wire] at inside; omega), Nat.add_assoc,
      ← question.length_wire, ih later, List.flatMap_cons, List.length_append, Nat.add_assoc]

theorem record_fields (record : Record) (placed : d.drop off = record.fixed ++ after) :
    (readShort off).value mem = record.typ.toNat ∧
      (readShort (off + 2)).value mem = record.cls.toNat ∧
      (readShort (off + 8)).value mem = record.data.length := by
  simp only [Record.fixed, List.append_assoc] at placed
  have cls := ByteReader.drop_part placed
  have ttl := ByteReader.drop_part cls
  have rdlen := ByteReader.drop_part ttl
  rw [Bytes.length_toList] at rdlen
  exact ⟨readShort_value holds record.typ.toNat_lt placed,
    readShort_value holds record.cls.toNat_lt cls, readShort_value holds record.short rdlen⟩

theorem findAddress_value (answers : List Record)
    (placed : d.drop off = answers.flatMap Record.wire ++ after) :
    (findAddress d.length answers.length off).value mem =
      (answers.find? Record.isAddress).map fun record => Bytes.beNat record.data := by
  induction answers generalizing off with
  | nil => rfl
  | cons record answers ih =>
    rw [List.flatMap_cons, List.append_assoc] at placed
    have later := ByteReader.drop_part placed
    have inside := ByteReader.part_inside placed record.wire_pos
    simp only [Record.wire, List.append_assoc] at placed
    have fixed := ByteReader.drop_part placed
    have data := ByteReader.drop_part fixed
    rw [record.length_fixed] at data
    obtain ⟨typ, cls, rdlen⟩ := record_fields holds record fixed
    rw [record.length_wire] at inside
    rw [List.length_cons, findAddress, ByteReader.value_bind,
      dnsSkipName_value holds record.name placed]
    dsimp only
    rw [if_neg (by omega), ByteReader.value_bind, typ, ByteReader.value_bind, cls,
      ByteReader.value_bind, rdlen, if_neg (by omega)]
    by_cases found : record.isAddress
    · have matching := found
      rw [record.isAddress_iff] at matching
      have address : (readBytes (off + record.name.wire.length + 10) 4).value mem =
          record.data := by
        rw [← matching.2.1]
        exact ByteReader.value_readBytes_part holds data
      rw [if_pos matching, ByteReader.value_bind, address, List.find?_cons_of_pos found]
      rfl
    · have other := found
      rw [record.isAddress_iff] at other
      rw [record.length_wire, ← Nat.add_assoc, ← Nat.add_assoc] at later
      rw [if_neg other, ih later, List.find?_cons_of_neg found]

theorem header_fields (message : Response) (placed : d = message.header ++ after) :
    (readShort 0).value mem = message.id.toNat ∧ (readShort 2).value mem = message.flags.toNat ∧
      (readShort 4).value mem = message.questions.length ∧
      (readShort 6).value mem = message.answers.length := by
  simp only [Response.header, List.append_assoc] at placed
  have id : d.drop 0 = _ := placed
  have flags := ByteReader.drop_part id
  have qd := ByteReader.drop_part flags
  have an := ByteReader.drop_part qd
  exact ⟨readShort_value holds message.id.toNat_lt id,
    readShort_value holds message.flags.toNat_lt flags,
    readShort_value holds message.counted.1 qd, readShort_value holds message.counted.2 an⟩

end Values

theorem Response.length_header (message : Response) : message.header.length = DNS_HDR := rfl

/-- `dns_parse_a_answer` looks only at bytes of the message, whatever they are; and of a response
with the expected id and from an accepted source it returns the first address. -/
theorem dns_answer_parsed (wantId : UInt16) (srcIp myip gw mask dns : Ip) : (∀ paylen : Nat,
      (dnsParseAAnswer paylen wantId.toNat srcIp myip gw mask dns).Only (· < paylen)) ∧
    ∀ (message : Response) (mem : Nat → UInt8), message.id = wantId →
      dnsReplySrcOk srcIp myip gw mask dns = true → ByteReader.Holds mem message.wire →
      (dnsParseAAnswer message.wire.length wantId.toNat srcIp myip gw mask dns).value mem =
        message.address := by
  constructor
  · intro paylen
    exact dnsParseAAnswer_only paylen _ _ _ _ _ _
  intro message mem expected accepted holds
  obtain ⟨id, flags, qd, an⟩ := header_fields holds message rfl
  have questions : message.wire.drop DNS_HDR = message.questions.flatMap Question.wire ++
      (message.answers.flatMap Record.wire ++ message.others) := by
    rw [Response.wire, ← message.length_header, List.drop_left]
  have answers := ByteReader.drop_part questions
  have long : ¬ message.wire.length < DNS_HDR := by
    rw [Response.wire, List.length_append, message.length_header]
    omega
  rw [dnsParseAAnswer, if_neg long, ByteReader.value_bind, id, expected, if_neg (not_not_intro rfl),
    ByteReader.value_bind, flags, if_neg message.response, accepted,
    if_neg (by decide), ByteReader.value_bind, qd, ByteReader.value_bind, an]
  by_cases empty : message.answers.length = 0
  · rw [if_pos empty, Response.address, List.eq_nil_of_length_eq_zero empty]
    rfl
  · rw [if_neg empty, ByteReader.value_bind, skipQuestions_value holds _ questions]
    exact findAddress_value holds _ answers

/-- The answer to a question for the name `a`, which its record refers to. -/
def loopbackResponse : Response where
  id := 7
  flags := 0x8180
  response := by decide
  questions := [⟨⟨[⟨[97], by decide⟩], .root, by decide⟩, 1, 1⟩]
  answers := [{
    name := ⟨[], .pointer 0xC0 12 (by decide), by decide⟩
    typ := 1
    cls := 1
    ttl := Bytes.zero
    data := [127, 0, 0, 1]
    short := by decide }]
  counted := by decide
  nscount := 0
  arcount := 0
  others := []

theorem dns_answer_parsed_loopback :
    dnsReplySrcOk Bytes.zero Bytes.zero Bytes.zero Bytes.zero Bytes.zero = true ∧
      (dnsParseAAnswer loopbackResponse.wire.length (7 : UInt16).toNat Bytes.zero Bytes.zero
        Bytes.zero Bytes.zero Bytes.zero).value (fun i => loopbackResponse.wire.getD i 0) =
          some 0x7F000001 := by
  refine ⟨by decide, ?_⟩
  rw [(dns_answer_parsed 7 _ _ _ _ _).2 loopbackResponse _ rfl (by decide)
    (ByteReader.holds_self _)]
  decide

end SirpairOs.Net
