import SirpairOs.Lib.Occurrence

/-! The receive loop of `user/curl.c`: how the response that arrives in pieces is cut into
header and body. -/
namespace SirpairOs.Curl

open Occurrence

def CURL_IOBUF_MAX : Nat := 1024
def CURL_HEADBUF_MAX : Nat := 8192

def CR : UInt8 := 13
def LF : UInt8 := 10

/-- The two blank lines that `find_head_end` looks for. -/
def crlfLine : List UInt8 := [CR, LF, CR, LF]

def lfLine : List UInt8 := [LF, LF]

/-- `find_head_end`; `none` is -1. -/
def findHeadEnd (buf : List UInt8) : Option Nat :=
  match firstEnd crlfLine buf with
  | some e => some e
  | none => firstEnd lfLine buf

structure Opt where
  includeHeaders : Bool
  headOnly : Bool

structure Reply where
  ok : Bool
  output : List UInt8
deriving DecidableEq, Repr

/-- The receive loop on what `recv` returns until it returns no more. `head` is the first
`hlen` bytes of `g_headbuf`, or `none` where `hlen` is -1. -/
def recvLoop (opt : Opt) : Option (List UInt8) → List (List UInt8) → List UInt8 → Reply
  | _, [], output => ⟨true, output⟩
  | some head, chunk :: chunks, output =>
    if opt.includeHeaders = false ∨ opt.headOnly = true then
      if head.length + chunk.length > CURL_HEADBUF_MAX then ⟨false, output⟩
      else
        match findHeadEnd (head ++ chunk) with
        | none => recvLoop opt (some (head ++ chunk)) chunks output
        | some hend =>
          if opt.headOnly then ⟨true, output ++ (head ++ chunk).take hend⟩
          else recvLoop opt none chunks (output ++ (head ++ chunk).drop hend)
    else recvLoop opt (some head) chunks (output ++ chunk)
  | none, chunk :: chunks, output =>
    if opt.headOnly then recvLoop opt none chunks output
    else recvLoop opt none chunks (output ++ chunk)

def curl (chunks : List (List UInt8)) : Reply := recvLoop ⟨false, false⟩ (some []) chunks []

/-- The end of the first blank line, of either kind. -/
def headEnd (stream : List UInt8) : Option Nat :=
  match firstEnd crlfLine stream, firstEnd lfLine stream with
  | some a, some b => some (min a b)
  | some a, none => some a
  | none, b => b

/-- The bytes in `g_headbuf` when a blank line is first in it. -/
def headBuf (head : List UInt8) : List (List UInt8) → List UInt8
  | [] => head
  | chunk :: chunks =>
    if headEnd (head ++ chunk) = none then headBuf (head ++ chunk) chunks else head ++ chunk

/-- No CR LF CR LF stands after the blank line that ends the header, as far as the stream has
been received when that line is complete. -/
def HeadAlone (chunks : List (List UInt8)) : Prop :=
  ∀ a ∈ firstEnd crlfLine (headBuf [] chunks), ∀ b ∈ firstEnd lfLine (headBuf [] chunks), a ≤ b

instance (chunks : List (List UInt8)) : Decidable (HeadAlone chunks) := by
  unfold HeadAlone
  infer_instance

theorem crlfLine_ne_nil : crlfLine ≠ [] := List.cons_ne_nil _ _

theorem lfLine_ne_nil : lfLine ≠ [] := List.cons_ne_nil _ _

theorem findHeadEnd_eq_none_iff (s : List UInt8) : findHeadEnd s = none ↔ headEnd s = none := by
  unfold findHeadEnd headEnd
  cases firstEnd crlfLine s with
  | none => rfl
  | some a => cases firstEnd lfLine s <;> simp

variable {s : List UInt8} {e : Nat}

theorem findHeadEnd_le (found : findHeadEnd s = some e) : e ≤ s.length := by
  unfold findHeadEnd at found
  cases crlf : firstEnd crlfLine s with
  | none =>
    rw [crlf] at found
    exact (firstEnd_spec found).2
  | some a =>
    rw [crlf] at found
    exact (firstEnd_spec (crlf.trans found)).2

/-- `find_head_end` prefers CR LF CR LF, so it finds the first blank line unless that comes
later than an empty line of the other kind. -/
theorem findHeadEnd_eq_headEnd_iff (s : List UInt8) : findHeadEnd s = headEnd s ↔
      ∀ a ∈ firstEnd crlfLine s, ∀ b ∈ firstEnd lfLine s, a ≤ b := by
  unfold findHeadEnd headEnd
  cases firstEnd crlfLine s with
  | none => simp
  | some a =>
    cases firstEnd lfLine s with
    | none => simp
    | some b =>
      simp only [Option.some.injEq, Option.mem_def, forall_eq']
      omega

theorem headEnd_le (found : headEnd s = some e) : e ≤ s.length := by
  unfold headEnd at found
  cases crlf : firstEnd crlfLine s with
  | none =>
    rw [crlf] at found
    exact (firstEnd_spec found).2
  | some a =>
    have inside := firstEnd_spec crlf
    rw [crlf] at found
    cases lf : firstEnd lfLine s with
    | none =>
      rw [lf, Option.some.injEq] at found
      omega
    | some b =>
      rw [lf, Option.some.injEq] at found
      omega

theorem headEnd_append (found : headEnd s = some e) (t : List UInt8) :
    headEnd (s ++ t) = some e := by
  unfold headEnd at found ⊢
  cases crlf : firstEnd crlfLine s with
  | none =>
    rw [crlf] at found
    have first := firstEnd_spec found
    rw [firstEnd_append found t]
    cases later : firstEnd crlfLine (s ++ t) with
    | none => rfl
    | some a =>
      have := length_lt_firstEnd crlfLine_ne_nil crlf later
      exact congrArg some (by omega)
  | some a =>
    have first := firstEnd_spec crlf
    rw [crlf] at found
    rw [firstEnd_append crlf t]
    cases lf : firstEnd lfLine s with
    | some b =>
      rw [lf] at found
      rw [firstEnd_append lf t]
      exact found
    | none =>
      rw [lf] at found
      rw [← found]
      cases later : firstEnd lfLine (s ++ t) with
      | none => rfl
      | some b =>
        have := length_lt_firstEnd lfLine_ne_nil lf later
        exact congrArg some (by omega)

theorem length_lt_headEnd {t : List UInt8} (absent : headEnd s = none)
    (found : headEnd (s ++ t) = some e) : s.length < e := by
  unfold headEnd at absent found
  cases crlf : firstEnd crlfLine s with
  | some a =>
    rw [crlf] at absent
    cases lf : firstEnd lfLine s <;> rw [lf] at absent <;> cases absent
  | none =>
    rw [crlf] at absent
    cases later : firstEnd crlfLine (s ++ t) with
    | none =>
      rw [later] at found
      exact length_lt_firstEnd lfLine_ne_nil absent found
    | some a =>
      have crlf_after := length_lt_firstEnd crlfLine_ne_nil crlf later
      rw [later] at found
      cases lf : firstEnd lfLine (s ++ t) with
      | none =>
        rw [lf] at found
        rw [Option.some.injEq] at found
        omega
      | some b =>
        have lf_after := length_lt_firstEnd lfLine_ne_nil absent lf
        rw [lf, Option.some.injEq] at found
        omega

variable (chunks : List (List UInt8))

theorem recvLoop_body (output : List UInt8) :
    recvLoop ⟨false, false⟩ none chunks output = ⟨true, output ++ chunks.flatten⟩ := by
  induction chunks generalizing output with
  | nil => simp [recvLoop]
  | cons chunk chunks ih => simp [recvLoop, ih]

/-- The header is complete when its last byte has come in, and everything after the end that
`find_head_end` then sees is written. -/
theorem recvLoop_head (head output : List UInt8) (e : Nat)
    (small : ∀ chunk ∈ chunks, chunk.length ≤ CURL_IOBUF_MAX) (absent : headEnd head = none)
    (header : headEnd (head ++ chunks.flatten) = some e) (bound : e ≤ 4096) :
    ∃ hend, findHeadEnd (headBuf head chunks) = some hend ∧
      headEnd (headBuf head chunks) = some e ∧ hend ≤ (head ++ chunks.flatten).length ∧
      recvLoop ⟨false, false⟩ (some head) chunks output =
        ⟨true, output ++ (head ++ chunks.flatten).drop hend⟩ := by
  induction chunks generalizing head with
  | nil =>
    rw [List.flatten_nil, List.append_nil, absent] at header
    cases header
  | cons chunk chunks ih =>
    rw [List.forall_mem_cons] at small
    rw [List.flatten_cons, ← List.append_assoc] at header ⊢
    have short : head.length < e := by
      rw [List.append_assoc] at header
      exact length_lt_headEnd absent header
    have room : ¬ head.length + chunk.length > CURL_HEADBUF_MAX := by
      have := small.1
      unfold CURL_IOBUF_MAX at this
      unfold CURL_HEADBUF_MAX
      omega
    rw [recvLoop, if_pos (Or.inl rfl), if_neg room, headBuf]
    by_cases complete : headEnd (head ++ chunk) = none
    · rw [if_pos complete, (findHeadEnd_eq_none_iff _).mpr complete]
      exact ih (head ++ chunk) small.2 complete header
    · rw [if_neg complete]
      obtain ⟨found, end_eq⟩ := Option.ne_none_iff_exists'.mp complete
      have same := headEnd_append end_eq chunks.flatten
      rw [header, Option.some.injEq] at same
      obtain ⟨hend, seen⟩ := Option.ne_none_iff_exists'.mp
        (fun none => complete ((findHeadEnd_eq_none_iff _).mp none))
      have inside := findHeadEnd_le seen
      refine ⟨hend, seen, end_eq.trans (congrArg some same.symm), ?_, ?_⟩
      · rw [List.length_append]
        omega
      · rw [seen]
        dsimp only
        rw [if_neg Bool.false_ne_true, recvLoop_body, List.drop_append_of_le_length inside,
          List.append_assoc]

/-- One way of splitting the stream gives the body exactly when no CR LF CR LF comes in
together with the end of the header. -/
theorem curl_eq_body_iff (e : Nat) (small : ∀ chunk ∈ chunks, chunk.length ≤ CURL_IOBUF_MAX)
    (header : headEnd chunks.flatten = some e) (bound : e ≤ 4096) :
    curl chunks = ⟨true, chunks.flatten.drop e⟩ ↔ HeadAlone chunks := by
  obtain ⟨hend, seen, ends, inside, run⟩ :=
    recvLoop_head chunks [] [] e small rfl header bound
  rw [HeadAlone, ← findHeadEnd_eq_headEnd_iff, seen, ends, curl, run, Option.some.injEq]
  simp only [List.nil_append, Reply.mk.injEq, true_and] at inside ⊢
  constructor
  · intro same
    have lengths := congrArg List.length same
    have limit := headEnd_le header
    rw [List.length_drop, List.length_drop] at lengths
    omega
  · intro same
    rw [same]

/-- Two ways of splitting one stream give the same output, the bytes after the first blank
line, exactly when in neither of them a CR LF CR LF comes in together with a header that has
ended before it. -/
theorem curl_splits_agree_iff (chunks others : List (List UInt8)) (e : Nat)
    (same : others.flatten = chunks.flatten)
    (small : ∀ chunk ∈ chunks ++ others, chunk ≠ [] ∧ chunk.length ≤ CURL_IOBUF_MAX)
    (header : headEnd chunks.flatten = some e) (bound : e ≤ 4096) :
    (curl chunks = curl others ∧ curl chunks = ⟨true, chunks.flatten.drop e⟩) ↔
      HeadAlone chunks ∧ HeadAlone others := by
  have first := curl_eq_body_iff chunks e
    (fun chunk member => (small chunk (List.mem_append_left _ member)).2) header bound
  have second := curl_eq_body_iff others e
    (fun chunk member => (small chunk (List.mem_append_right _ member)).2)
    (by rw [same, header]) bound
  rw [same] at second
  rw [← first, ← second]
  constructor
  · intro agree
    exact ⟨agree.2, agree.1.symm.trans agree.2⟩
  · intro both
    exact ⟨both.1.trans both.2.symm, both.1⟩

/-- "H", a blank line and "B", at once and byte by byte. -/
theorem curl_splits_agree_short : headEnd [[72, LF, LF, 66]].flatten = some 3 ∧
      curl [[72, LF, LF, 66]] = curl [[72], [LF], [LF], [66]] ∧
      curl [[72, LF, LF, 66]] = ⟨true, [66]⟩ := by
  refine ⟨by decide, ?_⟩
  exact (curl_splits_agree_iff [[72, LF, LF, 66]] [[72], [LF], [LF], [66]] 3 (by decide)
    (by decide) (by decide) (by decide)).mpr (by decide)

/-- A body that begins with CR LF CR LF after the blank line LF LF: at once, the header is
taken to reach up to it; byte by byte, it is not. -/
theorem curl_depends_on_split : curl [[72, LF, LF, CR, LF, CR, LF, 66]] = ⟨true, [66]⟩ ∧
      curl [[72], [LF], [LF], [CR], [LF], [CR], [LF], [66]] = ⟨true, [CR, LF, CR, LF, 66]⟩ := by
  decide

end SirpairOs.Curl
