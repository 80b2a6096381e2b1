import Mathlib.Algebra.Ring.Nat
import Mathlib.Data.List.Basic

/-! How `user/curl.c` makes the address of the server out of a URL. Strings are the bytes
before the NUL; the results of the functions are `none` where they return a negative value. -/
namespace SirpairOs.Curl

def CURL_HOST_MAX : Nat := 128
def CURL_PATH_MAX : Nat := 256
def CURL_ADDR_MAX : Nat := 64

def colon : UInt8 := 58
def slash : UInt8 := 47
def dot : UInt8 := 46
def digit (n : Nat) : UInt8 := UInt8.ofNat (48 + n)

def http : List UInt8 := [104, 116, 116, 112, 58, 47, 47]

def https : List UInt8 := [104, 116, 116, 112, 115, 58, 47, 47]

def isDigit (c : UInt8) : Bool := 48 ≤ c ∧ c ≤ 57

def digitValue (c : UInt8) : Nat := c.toNat - 48

/-- The loop of `parse_port`. -/
def portLoop (v : Nat) : List UInt8 → Option Nat
  | [] => some v
  | c :: s =>
    if isDigit c = false then none
    else if v * 10 + digitValue c > 65535 then none
    else portLoop (v * 10 + digitValue c) s

def parsePort (s : List UInt8) : Option Nat :=
  if s = [] then none
  else match portLoop 0 s with
    | none => none
    | some v => if v = 0 then none else some v

/-- The search for "://" in a URL that does not begin with it. -/
def hasScheme : List UInt8 → Bool
  | a :: b :: c :: s => (a == colon && b == slash && c == slash) || hasScheme (b :: c :: s)
  | _ => false

structure Url where
  host : List UInt8
  port : Nat
  path : List UInt8
deriving DecidableEq, Repr

inductive UrlError where
  | malformed
  | https
  | scheme
deriving DecidableEq, Repr

/-- What stands before the last ':' and after it. -/
def splitLastColon (host : List UInt8) : Option (List UInt8 × List UInt8) :=
  if colon ∈ host then
    let after := (host.reverse.takeWhile (· ≠ colon)).reverse
    some (host.take (host.length - after.length - 1), after)
  else none

def hostAndPath (p : List UInt8) : Option (List UInt8 × List UInt8) :=
  let host := p.takeWhile (· ≠ slash)
  let path := p.dropWhile (· ≠ slash)
  if path ≠ [] then
    if host.length = 0 ∨ host.length ≥ CURL_HOST_MAX then none
    else if path.length ≥ CURL_PATH_MAX then none
    else some (host, path)
  else if p.length = 0 ∨ p.length ≥ CURL_HOST_MAX then none
  else some (p, [slash])

def hostAndPort (host path : List UInt8) : Except UrlError Url :=
  match splitLastColon host with
  | none => .ok ⟨host, 80, path⟩
  | some (name, port) =>
    if name.length = 0 then .error .malformed
    else match parsePort port with
      | none => .error .malformed
      | some v => .ok ⟨name, v, path⟩

def parseUrl (url : List UInt8) : Except UrlError Url :=
  if https.isPrefixOf url then .error .https
  else if http.isPrefixOf url = false ∧ hasScheme url = true then .error .scheme
  else
    match hostAndPath (if http.isPrefixOf url then url.drop http.length else url) with
    | none => .error .malformed
    | some (host, path) => hostAndPort host path

def octetLoop (v n : Nat) : List UInt8 → Option (Nat × Nat × List UInt8)
  | [] => some (v, n, [])
  | c :: s =>
    if isDigit c = false then some (v, n, c :: s)
    else if v * 10 + digitValue c > 255 then none
    else octetLoop (v * 10 + digitValue c) (n + 1) s

def octet (s : List UInt8) : Option (Nat × List UInt8) :=
  match octetLoop 0 0 s with
  | none => none
  | some (v, n, rest) => if n = 0 then none else some (v, rest)

/-- The numbers that are still to come after `i` of them. -/
def ipv4Loop : Nat → List UInt8 → Option (List Nat)
  | 0, _ => none
  | left + 1, s =>
    match octet s with
    | none => none
    | some (v, rest) =>
      if left = 0 then if rest = [] then some [v] else none
      else match rest with
        | [] => none
        | c :: rest =>
          if c = dot then (ipv4Loop left rest).map (v :: ·) else none

def parseIpv4 (s : List UInt8) : Option (List Nat) := ipv4Loop 4 s

/-- The digits of `t`, the last one first, at most `room` of them. -/
def reverseDigits : Nat → Nat → List UInt8
  | 0, _ => []
  | room + 1, t => if t = 0 then [] else digit (t % 10) :: reverseDigits room (t / 10)

def u32ToDec (v : Nat) : List UInt8 :=
  if v = 0 then [digit 0] else (reverseDigits 15 v).reverse

def formatIpv4 (ip : UInt32) : List UInt8 :=
  u32ToDec (ip.toNat / 2 ^ 24 % 256) ++ [dot] ++ u32ToDec (ip.toNat / 2 ^ 16 % 256) ++ [dot] ++
    u32ToDec (ip.toNat / 2 ^ 8 % 256) ++ [dot] ++ u32ToDec (ip.toNat % 256)

/-- What `build_addr` does: the string it puts into `ipstr`, if it gets so far, and the
finished text. -/
structure Built where
  ipstr : Option (List UInt8)
  out : Option (List UInt8)
deriving DecidableEq, Repr

/-- `build_addr`; `dig` is what the name server says. -/
def buildAddr (dig : List UInt8 → Option UInt32) (host : List UInt8) (port : Nat) : Built :=
  let ipstr := if (parseIpv4 host).isSome then some host else (dig host).map formatIpv4
  match ipstr with
  | none => ⟨none, none⟩
  | some text =>
    if text.length + 1 + (u32ToDec port).length + 1 > CURL_ADDR_MAX then ⟨some text, none⟩
    else ⟨some text, some (text ++ [colon] ++ u32ToDec port)⟩

theorem reverseDigits_length_le (room k : Nat) {t : Nat} (small : t < 10 ^ k) :
    (reverseDigits room t).length ≤ k := by
  induction k generalizing room t with
  | zero =>
    have zero : t = 0 := by omega
    cases room with
    | zero => exact Nat.le_refl 0
    | succ room =>
      rw [reverseDigits, if_pos zero]
      exact Nat.le_refl 0
  | succ k ih =>
    cases room with
    | zero => exact Nat.zero_le _
    | succ room =>
      rw [reverseDigits]
      split
      · exact Nat.zero_le _
      · have fewer : t / 10 < 10 ^ k := by
          rw [Nat.div_lt_iff_lt_mul (by decide), ← Nat.pow_succ]
          exact small
        exact Nat.succ_le_succ (ih room fewer)

theorem u32ToDec_length_le (v : Nat) (small : v < 256) : (u32ToDec v).length ≤ 3 := by
  rw [u32ToDec]
  split
  · exact Nat.le_add_left 1 2
  · rw [List.length_reverse]
    exact reverseDigits_length_le 15 3 (Nat.lt_trans small (by decide))

theorem formatIpv4_length_le (ip : UInt32) : (formatIpv4 ip).length ≤ 15 := by
  have a := u32ToDec_length_le (ip.toNat / 2 ^ 24 % 256) (Nat.mod_lt _ (by decide))
  have b := u32ToDec_length_le (ip.toNat / 2 ^ 16 % 256) (Nat.mod_lt _ (by decide))
  have c := u32ToDec_length_le (ip.toNat / 2 ^ 8 % 256) (Nat.mod_lt _ (by decide))
  have d := u32ToDec_length_le (ip.toNat % 256) (Nat.mod_lt _ (by decide))
  simp only [formatIpv4, List.length_append, List.length_singleton]
  omega

theorem octetLoop_digits {v n : Nat} {s : List UInt8} {result : Nat × Nat × List UInt8}
    (read : octetLoop v n s = some result) :
    ∃ digits, s = digits ++ result.2.2 ∧ ∀ c ∈ digits, isDigit c = true := by
  induction s generalizing v n with
  | nil =>
    rw [octetLoop, Option.some.injEq] at read
    exact ⟨[], by rw [← read]; rfl, fun c none => absurd none List.not_mem_nil⟩
  | cons c s ih =>
    rw [octetLoop] at read
    by_cases digit : isDigit c = false
    · rw [if_pos digit, Option.some.injEq] at read
      exact ⟨[], by rw [← read]; rfl, fun c none => absurd none List.not_mem_nil⟩
    · rw [if_neg digit] at read
      split at read
      · cases read
      · obtain ⟨digits, cut, all⟩ := ih read
        refine ⟨c :: digits, by rw [List.cons_append, ← cut], ?_⟩
        rw [List.forall_mem_cons]
        exact ⟨Bool.not_eq_false _ ▸ digit, all⟩

theorem octet_digits {s rest : List UInt8} {v : Nat} (read : octet s = some (v, rest)) :
    ∃ digits, s = digits ++ rest ∧ ∀ c ∈ digits, isDigit c = true := by
  rw [octet] at read
  cases loop : octetLoop 0 0 s with
  | none =>
    rw [loop] at read
    cases read
  | some result =>
    rw [loop] at read
    dsimp only at read
    split at read
    · cases read
    · rw [Option.some.injEq, Prod.mk.injEq] at read
      rw [← read.2]
      exact octetLoop_digits loop

theorem filter_digits_append {digits : List UInt8} (all : ∀ c ∈ digits, isDigit c = true)
    (rest : List UInt8) :
    ((digits ++ rest).filter isDigit).length = digits.length + (rest.filter isDigit).length := by
  rw [List.filter_append, List.filter_eq_self.mpr all, List.length_append]

/-- An address is digits and the dots between the numbers. -/
theorem ipv4Loop_length {left : Nat} {s : List UInt8} {ip : List Nat}
    (read : ipv4Loop left s = some ip) : s.length + 1 = (s.filter isDigit).length + left := by
  induction left generalizing s ip with
  | zero => cases read
  | succ left ih =>
    rw [ipv4Loop] at read
    cases first : octet s with
    | none =>
      rw [first] at read
      cases read
    | some result =>
      rw [first] at read
      dsimp only at read
      obtain ⟨digits, cut, all⟩ := octet_digits first
      rw [cut, filter_digits_append all, List.length_append]
      by_cases last : left = 0
      · rw [if_pos last] at read
        split at read
        · rename_i ends
          rw [ends, last]
          simp
        · cases read
      · rw [if_neg last] at read
        split at read
        · cases read
        · rename_i c rest ends
          split at read
          · rename_i separated
            obtain ⟨numbers, inner, _⟩ := Option.map_eq_some_iff.mp read
            have := ih inner
            have mark : isDigit c = false := by rw [separated]; decide
            rw [ends, List.filter_cons_of_neg (by rw [mark]; exact Bool.false_ne_true),
              List.length_cons]
            omega
          · cases read

theorem parseIpv4_length {host : List UInt8} (literal : parseIpv4 host ≠ none) :
    host.length = (host.filter isDigit).length + 3 := by
  obtain ⟨ip, read⟩ := Option.ne_none_iff_exists'.mp literal
  have := ipv4Loop_length read
  omega

variable (dig : List UInt8 → Option UInt32) (host : List UInt8)

theorem buildAddr_out_fits (port : Nat) :
    ∀ text ∈ (buildAddr dig host port).out, text.length + 1 ≤ CURL_ADDR_MAX := by
  intro text member
  unfold buildAddr at member
  dsimp only at member
  split at member
  · cases member
  · split at member
    · cases member
    · rename_i short
      rw [Option.mem_def, Option.some.injEq] at member
      rw [← member, List.length_append, List.length_append, List.length_singleton]
      omega

theorem buildAddr_ipstr (port : Nat) : (buildAddr dig host port).ipstr =
      if (parseIpv4 host).isSome then some host else (dig host).map formatIpv4 := by
  unfold buildAddr
  dsimp only
  split
  · rename_i none
    rw [none]
  · rename_i text some
    rw [some]
    split <;> rfl

/-- For every URL that is accepted: whatever the name server says, the string copied into the
16 bytes of `ipstr` has at most 15 characters, and the finished text fits, exactly when the
host is not an address with more than 12 digits. -/
theorem buildAddr_fits_iff (url : List UInt8) (parts : Url) (_accepted : parseUrl url = .ok parts) :
    (∀ dig, (∀ text ∈ (buildAddr dig parts.host parts.port).ipstr, text.length ≤ 15) ∧
      ∀ text ∈ (buildAddr dig parts.host parts.port).out, text.length + 1 ≤ CURL_ADDR_MAX) ↔
    (parseIpv4 parts.host = none ∨ (parts.host.filter isDigit).length ≤ 12) := by
  by_cases literal : parseIpv4 parts.host = none
  · simp only [literal, true_or, iff_true]
    intro dig
    refine And.intro ?_ (buildAddr_out_fits dig parts.host parts.port)
    intro text member
    rw [buildAddr_ipstr, literal, if_neg (by decide), Option.mem_def, Option.map_eq_some_iff]
      at member
    obtain ⟨ip, _, same⟩ := member
    rw [← same]
    exact formatIpv4_length_le ip
  · have size := parseIpv4_length literal
    have copied : ∀ dig, (buildAddr dig parts.host parts.port).ipstr = some parts.host := by
      intro dig
      rw [buildAddr_ipstr, if_pos (Option.isSome_iff_ne_none.mpr literal)]
    simp only [literal, false_or]
    constructor
    · intro fits
      have short := (fits (fun _ => none)).1 parts.host (copied _)
      omega
    · intro few dig
      refine And.intro ?_ (buildAddr_out_fits dig parts.host parts.port)
      intro text member
      rw [copied dig, Option.mem_def, Option.some.injEq] at member
      rw [← member]
      omega

/-- "http://10.0.2.2/", and the parts of it. -/
def plainUrl : List UInt8 := http ++ [49, 48, 46, 48, 46, 50, 46, 50, 47]

def plainParts : Url := ⟨[49, 48, 46, 48, 46, 50, 46, 50], 80, [47]⟩

theorem buildAddr_fits_plain : parseUrl plainUrl = .ok plainParts ∧
      ∀ dig, (∀ text ∈ (buildAddr dig plainParts.host plainParts.port).ipstr, text.length ≤ 15) ∧
        ∀ text ∈ (buildAddr dig plainParts.host plainParts.port).out,
          text.length + 1 ≤ CURL_ADDR_MAX := by
  have accepted : parseUrl plainUrl = .ok plainParts := by decide
  exact ⟨accepted, (buildAddr_fits_iff plainUrl plainParts accepted).mpr (by decide)⟩

/-- The host "0000000000001.0.0.1" is an address of 19 characters: all of them are copied
into the 16 bytes. -/
theorem buildAddr_overruns :
    parseUrl (http ++ (List.replicate 12 48 ++ [49, 46, 48, 46, 48, 46, 49])) =
        .ok ⟨List.replicate 12 48 ++ [49, 46, 48, 46, 48, 46, 49], 80, [47]⟩ ∧
      ((buildAddr (fun _ => none) (List.replicate 12 48 ++ [49, 46, 48, 46, 48, 46, 49]) 80).ipstr.map
        List.length) = some 19 := by
  decide

end SirpairOs.Curl
