import SirpairOs.Lib.Ring

/-! Console input: `consoleintr` and `consoleread` of `kernel/console.c`. What is echoed is left
out. But an echo can complete an escape sequence that switches between line and raw mode, and
another processor can write one meanwhile, so the mode may change while a byte is handled. -/
namespace SirpairOs.Console

def INPUT_BUF : Nat := 128

def CTRL_C : UInt8 := 3
def CTRL_D : UInt8 := 4
def CTRL_H : UInt8 := 8
def CTRL_P : UInt8 := 16
def CTRL_U : UInt8 := 21
def DEL : UInt8 := 0x7f
def NL : UInt8 := 10
def CR : UInt8 := 13

instance : NeZero INPUT_BUF := ⟨by decide⟩

/-- `input`, without its lock. -/
structure Input where
  buf : Fin INPUT_BUF → UInt8
  /-- Read index -/
  r : BitVec 32
  /-- Write index -/
  w : BitVec 32
  /-- Edit index -/
  e : BitVec 32

namespace Input

/-- `input.e - input.r < INPUT_BUF` -/
def room (s : Input) : Bool := (s.e - s.r).toNat < INPUT_BUF

/-- `input.buf[input.e++ % INPUT_BUF] = c` -/
def put (c : UInt8) (s : Input) : Input :=
  { s with buf := Function.update s.buf (Ring.index INPUT_BUF s.e) c, e := s.e + 1#32 }

def commit (s : Input) : Input := { s with w := s.e }

/-- The loop that discards the current line. A round moves `e` one step towards `w`, so there
are at most `e - w` of them. -/
def killLine : Nat → Input → Input
  | 0, s => s
  | rounds + 1, s =>
    if s.e ≠ s.w ∧ s.buf (Ring.index INPUT_BUF (s.e - 1#32)) ≠ NL then
      killLine rounds { s with e := s.e - 1#32 }
    else s

def kill (s : Input) : Input := killLine (s.e - s.w).toNat s

/-- The body of the loop of `consoleintr`, with the mode that it finds before and after the
echo of the byte. -/
def typed (c : UInt8) (raw rawAfter : Bool) (s : Input) : Input :=
  if c = CTRL_P then s
  else if c = CTRL_U then s.kill
  else if c = CTRL_H ∨ c = DEL then
    if raw then
      if s.room then (s.put c).commit else s
    else if s.e ≠ s.w then { s with e := s.e - 1#32 }
    else s
  else if c = CTRL_C then
    let s := s.kill
    if s.room then (s.put NL).commit else s
  else if c ≠ 0 ∧ s.room then
    let c := if c = CR then NL else c
    let s := s.put c
    if rawAfter ∨ c = NL ∨ c = CTRL_D ∨ s.e = s.r + BitVec.ofNat 32 INPUT_BUF then s.commit else s
  else s

/-- The byte that a reader takes next; none if `input.r == input.w`. -/
def next (s : Input) : Option UInt8 :=
  if s.r = s.w then none else some (s.buf (Ring.index INPUT_BUF s.r))

def take (s : Input) : Input := { s with r := s.r + 1#32 }

def putBack (s : Input) : Input := { s with r := s.r - 1#32 }

end Input

/-- A call of `consoleread` for `target` bytes, `n` of which are still to come. -/
structure Reading where
  target : Nat
  n : Nat
  dst : List UInt8

structure Tty (σ : Type) where
  store : σ
  /-- `input_raw` -/
  raw : Bool
  /-- The unfinished calls of `consoleread`. -/
  reading : Nat → Option Reading
  /-- All bytes that calls have stored at their destination, in order. -/
  delivered : List UInt8
  /-- The finished calls with their bytes; `none` if the process was killed. -/
  results : List (Nat × Option (List UInt8))

structure Buffering (σ : Type) where
  typed : UInt8 → Bool → Bool → σ → σ
  next : σ → Option UInt8
  take : σ → σ
  putBack : σ → σ

def ring : Buffering Input := ⟨Input.typed, Input.next, Input.take, Input.putBack⟩

inductive Event where
  /-- A byte is typed; the mode may be switched while it is handled. -/
  | typed (c : UInt8) (switched : Option Bool)
  /-- A process writes `ESC [ 902 h` or `ESC [ 902 l`. -/
  | switch (raw : Bool)
  /-- A process calls `consoleread`. -/
  | read (p n : Nat)
  /-- A process gets to run one round of its loop. -/
  | resume (p : Nat) (killed : Bool)

namespace Tty

variable {σ : Type} (ops : Buffering σ)

def finish (p : Nat) (result : Option (List UInt8)) (t : Tty σ) : Tty σ :=
  { t with reading := Function.update t.reading p none, results := t.results ++ [(p, result)] }

/-- `console_reset_tty` is called on `^C`. -/
def consoleintr (c : UInt8) (switched : Option Bool) (t : Tty σ) : Tty σ :=
  let after := switched.getD (if c = CTRL_C then false else t.raw)
  { t with store := ops.typed c t.raw after t.store, raw := after }

/-- One round of the loop of `consoleread`. -/
def consoleread (p : Nat) (killed : Bool) (t : Tty σ) : Tty σ :=
  match t.reading p with
  | none => t
  | some rd =>
    if rd.n = 0 then t.finish p (some rd.dst)
    else
      match ops.next t.store with
      | none => if killed then t.finish p none else t
      | some c =>
        let t := { t with store := ops.take t.store }
        if c = CTRL_D then
          let t := if rd.n < rd.target then { t with store := ops.putBack t.store } else t
          t.finish p (some rd.dst)
        else
          let rd := { rd with n := rd.n - 1, dst := rd.dst ++ [c] }
          let t := { t with
            delivered := t.delivered ++ [c], reading := Function.update t.reading p (some rd) }
          if c = NL then t.finish p (some rd.dst) else t

def step (t : Tty σ) : Event → Tty σ
  | .typed c switched => t.consoleintr ops c switched
  | .switch raw => { t with raw := raw }
  | .read p n =>
    if (t.reading p).isSome then t
    else { t with reading := Function.update t.reading p (some ⟨n, n, []⟩) }
  | .resume p killed => t.consoleread ops p killed

def run (t : Tty σ) (events : List Event) : Tty σ := events.foldl (step ops) t

def start (store : σ) : Tty σ := ⟨store, false, fun _ => none, [], []⟩

end Tty

def Input.start (buf : Fin INPUT_BUF → UInt8) : Input := ⟨buf, 0, 0, 0⟩

end SirpairOs.Console
