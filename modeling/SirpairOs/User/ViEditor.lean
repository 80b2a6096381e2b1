import Mathlib.Data.List.Infix
import SirpairOs.Lib.Transition

/-! The editor `user/vi.c` without its drawing: one step is one turn of the main loop, which
reads a key and processes it. -/
namespace SirpairOs.Vi

def VI_MAX_LINES : Nat := 200
def VI_LINE_SIZE : Nat := 256
def VI_FILENAME_MAX : Nat := 256
def VI_FILE_IO_MAX : Nat := 16384

def ch (c : Char) : UInt8 := UInt8.ofNat c.toNat

def str (chars : List Char) : List UInt8 := chars.map ch

def NL : UInt8 := 10
def ESC : UInt8 := 27

inductive Key where
  /-- `-1` -/
  | none
  | char (c : UInt8)
  | up
  | down
  | left
  | right
  | home
  | fin
  | pageUp
  | pageDn
  | delete
  deriving DecidableEq

inductive Mode where
  | normal
  | insert
  | command
  deriving DecidableEq

structure Editor where
  lines : List (List UInt8)
  cx : Nat
  cy : Nat
  scrollY : Nat
  mode : Mode
  modified : Bool
  filename : List UInt8
  statusmsg : String
  statusIsErr : Bool
  cmdline : List UInt8
  running : Bool
  lastKey : Option Key
  optNu : Bool
  screenRows : Nat
  /-- The `r` of normal mode is waiting in `read_key` for the new character. -/
  replacing : Bool
  /-- The text that was last loaded or saved. -/
  stored : List (List UInt8)

/-- What happens in a turn: the key, and what becomes of an `open` or `write` if there is one. -/
structure Turn where
  key : Key
  opened : Bool
  written : Bool

namespace Editor

def lineCount (s : Editor) : Nat := s.lines.length

/-- `lines[row]` -/
def line (s : Editor) (row : Nat) : List UInt8 := s.lines.getD row []

def current (s : Editor) : List UInt8 := s.line s.cy

def setLine (row : Nat) (text : List UInt8) (s : Editor) : Editor :=
  { s with lines := s.lines.set row text }

def setStatus (msg : String) (s : Editor) : Editor :=
  { s with statusmsg := msg, statusIsErr := false }

def setError (msg : String) (s : Editor) : Editor :=
  { s with statusmsg := msg, statusIsErr := true }

def viScroll (s : Editor) : Editor :=
  let top := if s.cy < s.scrollY then s.cy else s.scrollY
  { s with scrollY := if s.cy ≥ top + s.screenRows then s.cy - s.screenRows + 1 else top }

/-- The row that `vi_clamp_cursor` chooses. -/
def clampedRow (s : Editor) : Nat :=
  if s.lineCount = 0 then 0 else if s.cy ≥ s.lineCount then s.lineCount - 1 else s.cy

def viClampCursor (s : Editor) : Editor :=
  let len := (s.line s.clampedRow).length
  { s with
    cy := s.clampedRow
    cx := match s.mode with
      | .normal => if len = 0 then 0 else if s.cx ≥ len then len - 1 else s.cx
      | _ => if s.cx > len then len else s.cx }

def viInsertChar (c : UInt8) (s : Editor) : Editor :=
  if s.cy ≥ VI_MAX_LINES then s
  else if s.current.length ≥ VI_LINE_SIZE - 2 then s
  else
    { s.setLine s.cy (s.current.take s.cx ++ c :: s.current.drop s.cx) with
      cx := s.cx + 1, modified := true }

def viDeleteCharAt (row col : Nat) (s : Editor) : Editor :=
  if row ≥ s.lineCount then s
  else if col ≥ (s.line row).length then s
  else { s.setLine row ((s.line row).eraseIdx col) with modified := true }

def lineAppend (dst src : List UInt8) : List UInt8 :=
  dst ++ src.take (VI_LINE_SIZE - 1 - dst.length)

def viJoinLineWithNext (row : Nat) (s : Editor) : Editor :=
  if row + 1 ≥ s.lineCount then s
  else if (s.line row).length + (s.line (row + 1)).length ≥ VI_LINE_SIZE - 1 then s
  else
    { s with
      lines := (s.lines.set row (lineAppend (s.line row) (s.line (row + 1)))).eraseIdx (row + 1)
      modified := true }

def viBackspace (s : Editor) : Editor :=
  if s.cx > 0 then
    let t := s.viDeleteCharAt s.cy (s.cx - 1)
    { t with cx := t.cx - 1 }
  else if s.cy > 0 then
    viJoinLineWithNext (s.cy - 1) { s with cy := s.cy - 1, cx := (s.line (s.cy - 1)).length }
  else s

def viInsertNewline (s : Editor) : Editor :=
  if s.lineCount ≥ VI_MAX_LINES then s
  else
    { s with
      lines := (s.lines.set s.cy (s.current.take s.cx)).insertIdx (s.cy + 1) (s.current.drop s.cx)
      cy := s.cy + 1, cx := 0, modified := true }

def viDeleteLine (s : Editor) : Editor :=
  if s.lineCount = 1 then { s with lines := [[]], cx := 0, modified := true }
  else
    { s with
      lines := s.lines.eraseIdx s.cy
      cy := if s.cy ≥ s.lineCount - 1 then s.lineCount - 1 - 1 else s.cy
      modified := true }

def viOpenLineBelow (s : Editor) : Editor :=
  if s.lineCount ≥ VI_MAX_LINES then s
  else
    { s with
      lines := s.lines.insertIdx (s.cy + 1) [], cy := s.cy + 1, cx := 0, mode := .insert,
      modified := true }

def viOpenLineAbove (s : Editor) : Editor :=
  if s.lineCount ≥ VI_MAX_LINES then s
  else { s with lines := s.lines.insertIdx s.cy [], cx := 0, mode := .insert, modified := true }

/-- The loop that fills `save_buf` from `pos` on does not find it too small. -/
def saveFits : Nat → List (List UInt8) → Bool
  | _, [] => true
  | pos, text :: rest =>
    if pos + text.length + 2 > VI_FILE_IO_MAX then false else saveFits (pos + text.length + 1) rest

/-- `vi_save_file`; whether it returns zero, and the editor after it. -/
def viSaveFile (turn : Turn) (s : Editor) : Bool × Editor :=
  if s.filename = [] then (false, s.setError "No file name")
  else if saveFits 0 s.lines = false then (false, s.setError "File too large to save")
  else if turn.opened = false then (false, s.setError "Cannot open for write")
  else if s.lineCount > 0 ∧ turn.written = false then (false, s.setError "Write failed")
  else (true, { s.setStatus "Written" with modified := false, stored := s.lines })

def viSaveAs (path : List UInt8) (turn : Turn) (s : Editor) : Bool × Editor :=
  viSaveFile turn { s with filename := path.take (VI_FILENAME_MAX - 1) }

def leading (test : UInt8 → Bool) (text : List UInt8) : Nat := (text.takeWhile test).length

def isBlank (c : UInt8) : Bool := c = ch ' ' ∨ c = 9

def backWhile (test : Nat → Bool) : Nat → Nat
  | 0 => 0
  | i + 1 => if test (i + 1) then backWhile test i else i + 1

def moveTo (cx cy : Nat) (s : Editor) : Editor := { s with cx := cx, cy := cy }

def startInsert (cx : Nat) (s : Editor) : Editor := { s with mode := .insert, cx := cx }

/-- The `w` of normal mode. -/
def wordForward (s : Editor) : Editor :=
  let text := s.current
  let cx := s.cx + leading (· ≠ ch ' ') (text.drop s.cx)
  let cx := cx + leading (· = ch ' ') (text.drop cx)
  let past := cx ≥ text.length ∧ s.cy + 1 < s.lineCount
  s.moveTo (if past then leading (· = ch ' ') (s.line (s.cy + 1)) else cx)
    (if past then s.cy + 1 else s.cy)

/-- The `b` of normal mode. -/
def wordBack (s : Editor) : Editor :=
  let up := s.cx = 0 ∧ s.cy > 0
  let cy := if up then s.cy - 1 else s.cy
  let text := s.line cy
  let cx := (if up then text.length else s.cx) - 1
  let cx := backWhile (fun i => text.getD i 0 = ch ' ') cx
  s.moveTo (backWhile (fun i => text.getD (i - 1) 0 ≠ ch ' ') cx) cy

def deleteHere (s : Editor) : Editor :=
  if s.cx < s.current.length then
    let t := s.viDeleteCharAt s.cy s.cx
    let len := t.current.length
    { t with cx := if len = 0 then 0 else if t.cx ≥ len then len - 1 else t.cx }
  else s

def deleteBefore (s : Editor) : Editor :=
  if s.cx > 0 then
    let t := s.viDeleteCharAt s.cy (s.cx - 1)
    { t with cx := t.cx - 1 }
  else s

/-- The blank that `J` appends before it joins the lines. -/
def appendBlank (s : Editor) : Editor :=
  if s.current.length > 0 ∧ s.current.length < VI_LINE_SIZE - 2 then
    s.setLine s.cy (s.current ++ [ch ' '])
  else s

def joinLines (s : Editor) : Editor :=
  if s.cy + 1 < s.lineCount then
    viJoinLineWithNext s.cy (s.appendBlank.moveTo s.appendBlank.current.length s.cy)
  else s

/-- The second `Z` of normal mode. -/
def saveAndQuit (turn : Turn) (s : Editor) : Editor :=
  let t := if s.modified then (s.viSaveFile turn).2 else s
  { t with running := false, lastKey := none }

/-- The keys of normal mode that are characters; `last_key` is set by the caller, except where
the function returns early. -/
def normalChar (c : UInt8) (turn : Turn) (s : Editor) : Editor :=
  let noted (t : Editor) : Editor := { t with lastKey := some (.char c) }
  if c = ch 'h' then noted (s.moveTo (s.cx - 1) s.cy)
  else if c = ch 'j' then noted (s.moveTo s.cx (if s.cy + 1 < s.lineCount then s.cy + 1 else s.cy))
  else if c = ch 'k' then noted (s.moveTo s.cx (s.cy - 1))
  else if c = ch 'l' then
    noted (s.moveTo (if s.cx + 1 < s.current.length then s.cx + 1 else s.cx) s.cy)
  else if c = ch '0' then noted (s.moveTo 0 s.cy)
  else if c = ch '$' then noted (s.moveTo (s.current.length - 1) s.cy)
  else if c = ch '^' then noted (s.moveTo (leading isBlank s.current) s.cy)
  else if c = ch 'G' then
    noted (s.moveTo s.cx (if s.lineCount > 0 then s.lineCount - 1 else s.cy))
  else if c = ch 'g' then
    if s.lastKey = some (.char (ch 'g')) then { s.moveTo s.cx 0 with lastKey := none } else noted s
  else if c = ch 'w' then noted s.wordForward
  else if c = ch 'b' then noted s.wordBack
  else if c = ch 'i' ∨ c = ch 'e' then noted (s.startInsert s.cx)
  else if c = ch 'I' then noted (s.startInsert (leading isBlank s.current))
  else if c = ch 'a' then
    noted (s.startInsert (if s.current.length > 0 then s.cx + 1 else s.cx))
  else if c = ch 'A' then noted (s.startInsert s.current.length)
  else if c = ch 'o' then noted s.viOpenLineBelow
  else if c = ch 'O' then noted s.viOpenLineAbove
  else if c = ch 'x' then noted s.deleteHere
  else if c = ch 'X' then noted s.deleteBefore
  else if c = ch 'd' then
    if s.lastKey = some (.char (ch 'd')) then { s.viDeleteLine with lastKey := none } else noted s
  else if c = ch 'J' then noted s.joinLines
  else if c = ch 'r' then { s with replacing := true }
  else if c = ch 'Z' then
    if s.lastKey = some (.char (ch 'Z')) then s.saveAndQuit turn else noted s
  else if c = ch ':' then noted { s with mode := .command, cmdline := [] }
  else noted s

def viProcessNormal (turn : Turn) (s : Editor) : Editor :=
  let s := { s with statusmsg := "" }
  let noted (t : Editor) : Editor := { t with lastKey := some turn.key }
  match turn.key with
  | .char c => s.normalChar c turn
  | .left => noted (s.moveTo (s.cx - 1) s.cy)
  | .down => noted (s.moveTo s.cx (if s.cy + 1 < s.lineCount then s.cy + 1 else s.cy))
  | .up => noted (s.moveTo s.cx (s.cy - 1))
  | .right => noted (s.moveTo (if s.cx + 1 < s.current.length then s.cx + 1 else s.cx) s.cy)
  | .home => noted (s.moveTo 0 s.cy)
  | .fin => noted (s.moveTo (s.current.length - 1) s.cy)
  | .pageUp => noted { s.moveTo s.cx (s.cy - s.screenRows) with scrollY := s.scrollY - s.screenRows }
  | .pageDn =>
    noted (s.moveTo s.cx
      (if s.cy + s.screenRows ≥ s.lineCount then s.lineCount - 1 else s.cy + s.screenRows))
  | .delete => noted s
  | .none => noted s

/-- The end of the `r` of normal mode, when `read_key` has returned. -/
def replaceChar (key : Key) (s : Editor) : Editor :=
  let t := { s with replacing := false, lastKey := some (.char (ch 'r')) }
  match key with
  | .char c =>
    if 32 ≤ c.toNat ∧ c.toNat < 127 ∧ s.cx < s.current.length then
      { t.setLine s.cy (s.current.set s.cx c) with modified := true }
    else t
  | _ => t

def viProcessInsert (key : Key) (s : Editor) : Editor :=
  let s := { s with statusmsg := "" }
  match key with
  | .char c =>
    if c = ESC then { s with mode := .normal, cx := s.cx - 1 }
    else if c = 8 ∨ c = 0x7f then s.viBackspace
    else if c = 13 ∨ c = NL then s.viInsertNewline
    else if c = 9 then
      (((s.viInsertChar (ch ' ')).viInsertChar (ch ' ')).viInsertChar (ch ' ')).viInsertChar (ch ' ')
    else if 32 ≤ c.toNat ∧ c.toNat < 127 then s.viInsertChar c
    else s
  | .delete =>
    if s.cx < s.current.length then s.viDeleteCharAt s.cy s.cx
    else if s.cy + 1 < s.lineCount then s.viJoinLineWithNext s.cy
    else s
  | .up => s.moveTo s.cx (s.cy - 1)
  | .down => s.moveTo s.cx (if s.cy + 1 < s.lineCount then s.cy + 1 else s.cy)
  | .left => s.moveTo (s.cx - 1) s.cy
  | .right => s.moveTo (if s.cx < s.current.length then s.cx + 1 else s.cx) s.cy
  | .home => s.moveTo 0 s.cy
  | .fin => s.moveTo s.current.length s.cy
  | .pageUp => s
  | .pageDn => s
  | .none => s

def isDigit (c : UInt8) : Bool := ch '0' ≤ c ∧ c ≤ ch '9'

def cmdlineIsAllDigits (p : List UInt8) : Bool := p ≠ [] ∧ p.all isDigit

/-- The loop of `cmdline_to_positive_int`, which has come to `n`. -/
def cmdlineToPositiveInt (n : Nat) : List UInt8 → Nat
  | [] => n
  | c :: rest =>
    if isDigit c = false then n
    else
      let d := c.toNat - (ch '0').toNat
      if n > (2147483647 - d) / 10 then 2147483647 else cmdlineToPositiveInt (n * 10 + d) rest

/-- `vi_goto_line_1based` -/
def viGotoLine (ln : Nat) (s : Editor) : Editor :=
  if s.lineCount < 1 then s
  else
    let ln := if ln < 1 then 1 else ln
    s.moveTo 0 ((if ln > s.lineCount then s.lineCount else ln) - 1)

def skipBlanks (p : List UInt8) : List UInt8 := p.dropWhile (· = ch ' ')

/-- The command line, from its first character that is not a blank. -/
def command (s : Editor) : List UInt8 := skipBlanks s.cmdline

/-- The loop ends when the file has been saved. -/
def quitIfSaved (result : Bool × Editor) : Editor :=
  { result.2 with running := if result.1 then false else result.2.running }

/-- `:set` -/
def setOption (p : List UInt8) (s : Editor) : Editor :=
  if p = str ['n', 'u'] ∨ p = str ['n', 'u', 'm', 'b', 'e', 'r'] then { s with optNu := true }
  else if p = str ['n', 'o', 'n', 'u'] ∨ p = str ['n', 'o', 'n', 'u', 'm', 'b', 'e', 'r'] then
    { s with optNu := false }
  else s.setError "Unknown set option"

def viExecuteCommand (turn : Turn) (s : Editor) : Editor :=
  let s := { s with mode := .normal }
  let p := s.command
  if s.cmdline = [] then s
  else if cmdlineIsAllDigits p then
    if cmdlineToPositiveInt 0 p = 0 then s.setError "Invalid line"
    else { s.viGotoLine (cmdlineToPositiveInt 0 p) with statusmsg := "" }
  else if p.take 4 = str ['s', 'e', 't', ' '] then s.setOption (skipBlanks (p.drop 4))
  else if p = str ['q'] then
    if s.modified then s.setError "No write since last change (use :q! to force)"
    else { s with running := false }
  else if p = str ['q', '!'] then { s with running := false }
  else if p = str ['w'] then (s.viSaveFile turn).2
  else if p.take 2 = str ['w', ' '] then
    let name := skipBlanks (p.drop 2)
    if name = [] then s.setError "File name required"
    else if name.length < VI_FILENAME_MAX - 1 then (s.viSaveAs name turn).2
    else s.setError "File name too long"
  else if p = str ['w', 'q'] ∨ p = str ['x'] then quitIfSaved (s.viSaveFile turn)
  else if p.take 3 = str ['w', 'q', ' '] then
    let name := skipBlanks (p.drop 3)
    if name = [] then s.setError "File name required" else quitIfSaved (s.viSaveAs name turn)
  else s.setError "Not an editor command"

def viProcessCommand (turn : Turn) (s : Editor) : Editor :=
  match turn.key with
  | .char c =>
    if c = ESC then { s with mode := .normal, statusmsg := "" }
    else if c = 13 ∨ c = NL then s.viExecuteCommand turn
    else if c = 8 ∨ c = 0x7f then
      { s with
        mode := if s.cmdline = [] then .normal else s.mode, cmdline := s.cmdline.dropLast }
    else if 32 ≤ c.toNat ∧ c.toNat < 127 ∧ s.cmdline.length < 78 then
      { s with cmdline := s.cmdline ++ [c] }
    else s
  | _ => s

def turn (t : Turn) (s : Editor) : Editor :=
  if s.replacing then s.replaceChar t.key
  else
    let s := s.viClampCursor.viScroll
    match s.mode with
    | .normal => s.viProcessNormal t
    | .insert => s.viProcessInsert t.key
    | .command => s.viProcessCommand t

/-- The loop goes on as long as `running` is set. -/
def step (t : Turn) (s : Editor) : Option Editor := if s.running then some (s.turn t) else none

end Editor

/-- The part of a byte array before its NUL, as `strcpy` copies it. -/
def cstr (bytes : List UInt8) : List UInt8 := bytes.takeWhile (· ≠ 0)

/-- The local variables of `vi_load_file`: the lines finished, and the first `col` bytes
of `line`. -/
structure Loading where
  lines : List (List UInt8)
  line : List UInt8

def loadByte (st : Loading) (b : UInt8) : Loading :=
  if b = NL then ⟨st.lines ++ [cstr st.line], []⟩
  else if b = 13 then st
  else if b = 9 then
    { st with line := st.line ++
        List.replicate (min (4 - st.line.length % 4) (VI_LINE_SIZE - 1 - st.line.length)) (ch ' ') }
  else if st.line.length < VI_LINE_SIZE - 1 then { st with line := st.line ++ [b] }
  else st

/-- The loop over the bytes of one `read`. -/
def loadChunk : List UInt8 → Loading → Loading
  | [], st => st
  | b :: rest, st =>
    if st.lines.length < VI_MAX_LINES then loadChunk rest (loadByte st b) else st

inductive File where
  /-- It cannot be opened. -/
  | absent
  /-- A `read` fails. -/
  | unreadable
  | bytes (content : List UInt8)

namespace Editor

/-- The editor when its loop starts on a text. -/
def fresh (text : List (List UInt8)) (filename : List UInt8) (screenRows : Nat) : Editor where
  lines := text
  cx := 0
  cy := 0
  scrollY := 0
  mode := .normal
  modified := false
  filename := filename
  statusmsg := ""
  statusIsErr := false
  cmdline := []
  running := true
  lastKey := none
  optNu := false
  screenRows := screenRows
  replacing := false
  stored := text

/-- `vi_load_file`: whether the `open` succeeds, what the `read`s give and whether the last
one fails; whether it returns zero, and the editor after it. -/
def viLoadFile (opened : Bool) (reads : List (List UInt8)) (failed : Bool) (s : Editor) :
    Bool × Editor :=
  if opened = false then
    (true, { s.setStatus "[New File]" with lines := [[]], modified := false, stored := [[]] })
  else
    let st := reads.foldl (fun st chunk => loadChunk chunk st) ⟨[], []⟩
    if failed then (false, { s.setError "Read failed" with lines := st.lines })
    else
      let lines :=
        if st.line.length > 0 ∨ st.lines.length = 0 then st.lines ++ [cstr st.line] else st.lines
      (true, { s.setStatus "Loaded" with lines := lines, modified := false, stored := lines })

/-- `main` up to its loop, without an argument or with a file name. After a failed load there is
one empty line. -/
def main (argument : Option (List UInt8 × File)) (screenRows : Nat) : Editor :=
  match argument with
  | none => (fresh [[]] [] screenRows).setStatus "[New File]"
  | some (name, .absent) => (viLoadFile false [] false (fresh [[]] name screenRows)).2
  | some (name, .unreadable) =>
    { (viLoadFile true [] true (fresh [[]] name screenRows)).2 with lines := [[]] }
  | some (name, .bytes content) => (viLoadFile true [content] false (fresh [[]] name screenRows)).2

end Editor

end SirpairOs.Vi
