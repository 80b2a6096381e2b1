import SirpairOs.Lib.Reader
import SirpairOs.Net.Device

/-! Names in DNS messages: `dns_encode_name` and `dns_skip_name` of
`kernel/microps/sirpair_sock_user.c`. -/
namespace SirpairOs.Net

/-- `'.'` -/
def DOT : UInt8 := 46

/-- The loop of `dns_encode_name` over the rest of the name and its terminator; `lab` is the
label that has been started and `out` is what has been written. `none` is the result `-1`. -/
def encodeLabels (maxlen : Nat) : List UInt8 → List UInt8 → List UInt8 → Option (List UInt8)
  | [], _, out => if out.length + 1 > maxlen then none else some (out ++ [0])
  | c :: rest, lab, out =>
    if c = DOT ∨ c = 0 then
      if lab.length = 0 ∨ lab.length > 63 then none
      else if out.length + 1 + lab.length ≥ maxlen then none
      else encodeLabels maxlen rest [] (out ++ UInt8.ofNat lab.length :: lab)
    else if c = 32 ∨ c = 9 then none
    else encodeLabels maxlen rest (lab ++ [c]) out

/-- `dns_encode_name` of a string, given without its terminator. -/
def dnsEncodeName (name : List UInt8) (maxlen : Nat) : Option (List UInt8) :=
  if name.length = 0 ∨ name.length > 253 then none else encodeLabels maxlen (name ++ [0]) [] []

/-- The loop of `dns_skip_name`. -/
def skipLabels (mlen off steps : Nat) : ByteReader (Option Nat) :=
  if _inside : off < mlen then do
    let c ← readByte off
    if c = 0 then pure (some (off + 1))
    else if c &&& 0xC0 = 0xC0 then
      if off + 1 ≥ mlen then pure none else pure (some (off + 2))
    else if off + 1 + c.toNat > mlen then pure none
    else if steps + 1 > 64 then pure none
    else skipLabels mlen (off + 1 + c.toNat) (steps + 1)
  else pure none
termination_by mlen - off

def dnsSkipName (mlen off : Nat) : ByteReader (Option Nat) := skipLabels mlen off 0

structure Label where
  text : List UInt8
  short : 1 ≤ text.length ∧ text.length ≤ 63

def Label.wire (label : Label) : List UInt8 := UInt8.ofNat label.text.length :: label.text

def wireLabels (labels : List Label) : List UInt8 := labels.flatMap Label.wire

/-- A name ends with the root or with a pointer to the rest of it. -/
inductive NameEnd where
  | root
  | pointer (high low : UInt8) (marked : high &&& 0xC0 = 0xC0)

def NameEnd.wire : NameEnd → List UInt8
  | root => [0]
  | pointer high low _ => [high, low]

def joinLabels (labels : List Label) : List UInt8 := [DOT].intercalate (labels.map Label.text)

namespace Label

variable (label : Label)

theorem length_wire : label.wire.length = 1 + label.text.length := Nat.add_comm _ 1

/-- The byte in front of a label is its length, and neither the end nor a pointer. -/
theorem front : (UInt8.ofNat label.text.length).toNat = label.text.length ∧
    UInt8.ofNat label.text.length ≠ 0 ∧ ¬ UInt8.ofNat label.text.length &&& 0xC0 = 0xC0 := by
  obtain ⟨least, most⟩ := label.short
  generalize label.text.length = n at least most
  interval_cases n <;> decide

end Label

theorem skipLabels_end {mem : Nat → UInt8} {d after : List UInt8} (holds : ByteReader.Holds mem d)
    (ending : NameEnd) {off : Nat} (placed : d.drop off = ending.wire ++ after) (steps : Nat) :
    (skipLabels d.length off steps).value mem = some (off + ending.wire.length) := by
  cases ending with
  | root =>
    obtain ⟨inside, zero, _⟩ := holds.next placed
    rw [skipLabels, dif_pos inside, ByteReader.value_bind, ByteReader.value_readByte, zero,
      if_pos rfl]
    rfl
  | pointer high low marked =>
    obtain ⟨inside, first, more⟩ := holds.next placed
    obtain ⟨second, _, _⟩ := holds.next more
    have nonzero : high ≠ 0 := by
      intro zero
      rw [zero] at marked
      exact absurd marked (by decide)
    rw [skipLabels, dif_pos inside, ByteReader.value_bind, ByteReader.value_readByte, first,
      if_neg nonzero, if_pos marked, if_neg (by omega)]
    rfl

theorem skipLabels_label {mem : Nat → UInt8} {d after : List UInt8} (holds : ByteReader.Holds mem d)
    (label : Label) {off : Nat} (placed : d.drop off = label.wire ++ after) (steps : Nat) :
    (skipLabels d.length off steps).value mem =
      if steps < 64 then (skipLabels d.length (off + label.wire.length) (steps + 1)).value mem
      else none := by
  obtain ⟨length, nonzero, unmarked⟩ := label.front
  obtain ⟨inside, first, text⟩ := holds.next placed
  have fits : off + 1 + label.text.length ≤ d.length := by
    have whole : (d.drop off).length = (label.wire ++ after).length := congrArg List.length placed
    rw [List.length_drop, List.length_append, label.length_wire] at whole
    omega
  rw [skipLabels, dif_pos inside, ByteReader.value_bind, ByteReader.value_readByte, first,
    if_neg nonzero, if_neg unmarked, length, if_neg (by omega), label.length_wire, ← Nat.add_assoc]
  by_cases few : steps < 64
  · rw [if_pos few, if_neg (by omega)]
  · rw [if_neg few, if_pos (by omega)]
    rfl

/-- A name of up to 64 labels is skipped, and a longer one is given up on. -/
theorem skipLabels_value {mem : Nat → UInt8} {d after : List UInt8} (holds : ByteReader.Holds mem d)
    (labels : List Label) (ending : NameEnd) {off steps : Nat} (started : steps ≤ 64)
    (placed : d.drop off = wireLabels labels ++ (ending.wire ++ after)) :
    (skipLabels d.length off steps).value mem = if steps + labels.length ≤ 64 then
        some (off + (wireLabels labels ++ ending.wire).length)
      else none := by
  induction labels generalizing off steps with
  | nil =>
    rw [skipLabels_end holds ending placed, List.length_nil, Nat.add_zero, if_pos started]
    rfl
  | cons label labels ih =>
    rw [wireLabels, List.flatMap_cons, List.append_assoc] at placed
    rw [skipLabels_label holds label placed, List.length_cons]
    by_cases few : steps < 64
    · have one_more : steps + 1 + labels.length = steps + (labels.length + 1) := by omega
      have total : off + label.wire.length + (wireLabels labels ++ ending.wire).length =
          off + (wireLabels (label :: labels) ++ ending.wire).length := by
        simp only [wireLabels, List.flatMap_cons, List.length_append]
        omega
      rw [if_pos few, ih few (ByteReader.drop_part placed), one_more, total]
    · rw [if_neg few, if_neg (by omega)]

/-- A label is written at a dot and at the end of the name if it is neither empty nor too long. -/
theorem encodeLabels_stop {maxlen : Nat} {c : UInt8} {rest lab out result : List UInt8}
    (stop : c = DOT ∨ c = 0) (accepted : encodeLabels maxlen (c :: rest) lab out = some result) :
    ∃ label : Label, label.text = lab ∧
      encodeLabels maxlen rest [] (out ++ label.wire) = some result := by
  rw [encodeLabels, if_pos stop] at accepted
  split at accepted
  · exact absurd accepted (by simp only [reduceCtorEq, not_false_eq_true])
  split at accepted
  · exact absurd accepted (by simp only [reduceCtorEq, not_false_eq_true])
  exact ⟨⟨lab, by omega⟩, rfl, accepted⟩

theorem joinLabels_cons (label : Label) {labels : List Label} (more : labels ≠ []) :
    joinLabels (label :: labels) = label.text ++ DOT :: joinLabels labels := by
  cases labels with
  | nil => exact absurd rfl more
  | cons next labels =>
    rw [joinLabels, joinLabels, List.map_cons, List.map_cons]
    rfl

/-- What the rest of the loop makes of the rest of a name. -/
theorem encodeLabels_labels {maxlen : Nat} {rest lab out result : List UInt8}
    (string : (0 : UInt8) ∉ rest)
    (accepted : encodeLabels maxlen (rest ++ [0]) lab out = some result) :
    ∃ labels : List Label, result = out ++ (wireLabels labels ++ [0]) ∧
      joinLabels labels = lab ++ rest ∧ labels.length = rest.count DOT + 1 := by
  induction rest generalizing lab out with
  | nil =>
    obtain ⟨label, text, finished⟩ := encodeLabels_stop (Or.inr rfl) accepted
    rw [encodeLabels] at finished
    split at finished
    · exact absurd finished (by simp only [reduceCtorEq, not_false_eq_true])
    refine ⟨[label], ?_, ?_, rfl⟩
    · rw [← Option.some.inj finished, wireLabels, List.flatMap_cons, List.flatMap_nil,
        List.append_nil, List.append_assoc]
    · rw [List.append_nil, ← text]
      exact List.append_nil _
  | cons c rest ih =>
    obtain ⟨nonzero, string⟩ := List.ne_and_not_mem_of_not_mem_cons string
    by_cases dot : c = DOT
    · obtain ⟨label, text, continued⟩ := encodeLabels_stop (Or.inl dot) accepted
      obtain ⟨labels, written, joined, count⟩ := ih string continued
      have more : labels ≠ [] := List.ne_nil_of_length_pos (by omega)
      refine ⟨label :: labels, ?_, ?_, ?_⟩
      · rw [written, wireLabels, wireLabels, List.flatMap_cons, List.append_assoc,
          List.append_assoc]
      · rw [joinLabels_cons label more, joined, text, dot]
        rfl
      · rw [List.length_cons, count, dot, List.count_cons_self]
    · rw [List.cons_append, encodeLabels, if_neg (not_or.mpr ⟨dot, nonzero.symm⟩)] at accepted
      split at accepted
      · exact absurd accepted (by simp only [reduceCtorEq, not_false_eq_true])
      obtain ⟨labels, written, joined, count⟩ := ih string accepted
      refine ⟨labels, written, ?_, ?_⟩
      · rw [joined, List.append_assoc]
        rfl
      · rw [count, List.count_cons_of_ne dot]

/-- `out` is `name` as length-prefixed labels, and is skipped wherever it stands in a message. -/
def RoundTrips (name out : List UInt8) : Prop :=
  (∃ labels : List Label, out = wireLabels labels ++ [0] ∧ joinLabels labels = name) ∧
    ∀ (before after : List UInt8) (mem : Nat → UInt8),
      ByteReader.Holds mem (before ++ out ++ after) →
      (dnsSkipName (before ++ out ++ after).length before.length).value mem =
        some (before.length + out.length)

/-- A name that is accepted comes back if and only if it has at most 64 labels: the encoder has no
limit on their number, and `dns_skip_name` gives up after 64. -/
theorem dns_name_round_trips_iff {name out : List UInt8} {maxlen : Nat}
    (string : (0 : UInt8) ∉ name) (accepted : dnsEncodeName name maxlen = some out) :
    RoundTrips name out ↔ name.count DOT < 64 := by
  rw [dnsEncodeName] at accepted
  split at accepted
  · exact absurd accepted (by simp only [reduceCtorEq, not_false_eq_true])
  obtain ⟨labels, written, joined, count⟩ := encodeLabels_labels string accepted
  rw [List.nil_append] at written joined
  have skipped (before after : List UInt8) (mem : Nat → UInt8)
      (holds : ByteReader.Holds mem (before ++ out ++ after)) :
      (dnsSkipName (before ++ out ++ after).length before.length).value mem =
        if 0 + labels.length ≤ 64 then some (before.length + out.length) else none := by
    have placed : (before ++ out ++ after).drop before.length =
        wireLabels labels ++ (NameEnd.root.wire ++ after) := by
      rw [List.append_assoc, List.drop_left, written, List.append_assoc]
      rfl
    rw [dnsSkipName, skipLabels_value holds labels .root (Nat.zero_le 64) placed, written]
    rfl
  constructor
  · intro trips
    have result := skipped [] [] _ (ByteReader.holds_self _)
    rw [trips.2 [] [] _ (ByteReader.holds_self _)] at result
    by_contra many
    rw [if_neg (by omega)] at result
    exact absurd result (by simp only [reduceCtorEq, not_false_eq_true])
  · intro few
    refine ⟨⟨labels, written, joined⟩, ?_⟩
    intro before after mem holds
    rw [skipped before after mem holds, if_pos (by omega)]

/-- `a.b` -/
theorem dns_name_round_trips_two_labels :
    RoundTrips [97, 46, 98] [1, 97, 1, 98, 0] ↔ [97, 46, 98].count DOT < 64 :=
  @dns_name_round_trips_iff _ _ 256 (by decide) (by decide)

/-- A name of 65 labels `a`, which the buffer of the caller has room for. -/
def manyLabels : List UInt8 := (List.replicate 64 [97, DOT]).flatten ++ [97]

/-- It is encoded, and `dns_skip_name` does not find the end of the encoding. -/
theorem dns_many_labels_not_skipped : ∃ out : List UInt8,
    (0 : UInt8) ∉ manyLabels ∧ dnsEncodeName manyLabels 256 = some out ∧
      (dnsSkipName out.length 0).value (fun i => out.getD i 0) = none := by
  refine ⟨wireLabels (List.replicate 65 ⟨[97], by decide⟩) ++ [0], by decide, by decide +kernel, ?_⟩
  exact @skipLabels_value _ _ [] (ByteReader.holds_self _) (List.replicate 65 ⟨[97], by decide⟩)
    .root 0 0 (Nat.zero_le 64) rfl

end SirpairOs.Net
