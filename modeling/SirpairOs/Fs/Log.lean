import SirpairOs.Fs.Buffer

/-! The redo log of `kernel/log.c`. A process works on the buffer of a sector
it has read with `bread`, so the sector stands for the `struct buf` pointer. -/
namespace SirpairOs

namespace LogHeader

/-- `lh->n` of the on-disk header, an `int`. -/
def n (header : Block) : Int :=
  let count := header.num 0 4
  if count < 2 ^ 31 then count else count - 2 ^ 32

def sector (header : Block) (i : Nat) : Nat := header.num (4 + 4 * i) 4

/-- The entries that a loop over the header reaches: none if the count is negative. -/
def sectors (header : Block) : List Nat := (List.range (n header).toNat).map (sector header)

/-- The loop of `write_head` from entry `i` on. -/
def store (header : Block) (i : Nat) : List Nat → Block
  | [] => header
  | s :: rest => store (header.setNum (4 + 4 * i) 4 s) (i + 1) rest

end LogHeader

namespace Log

open Bio

def getLog : BufProg Log := .perform BufOp.getLog
def setLh (lh : List Nat) : BufProg Unit := .perform (BufOp.setLh lh)

/-- The loop of `install_trans` from log block `tail` on. -/
def installFrom (start : Nat) : Nat → List Nat → BufProg Unit
  | _, [] => pure ()
  | tail, sector :: rest => do
    bread (start + tail + 1)
    bread sector
    let lbuf ← peek (start + tail + 1)
    poke sector lbuf.data
    bwrite sector
    brelse (start + tail + 1)
    brelse sector
    installFrom start (tail + 1) rest

def installTrans : BufProg Unit := do
  let log ← getLog
  installFrom log.start 0 log.lh

def readHead : BufProg Unit := do
  let log ← getLog
  bread log.start
  let buf ← peek log.start
  setLh (LogHeader.sectors buf.data)
  brelse log.start

/-- Write in-memory log header to disk. This is the true point at which the
current transaction commits. -/
def writeHead : BufProg Unit := do
  let log ← getLog
  bread log.start
  let buf ← peek log.start
  poke log.start (LogHeader.store (buf.data.setNum 0 4 log.lh.length) 0 log.lh)
  bwrite log.start
  brelse log.start

def recoverFromLog : BufProg Unit := do
  readHead
  installTrans
  setLh []
  writeHead

def beginTrans : BufProg Unit := .perform BufOp.acquireLog

def commitTrans : BufProg Unit := do
  let log ← getLog
  Prog.when (log.lh.length > 0) do
    writeHead
    installTrans
    setLh []
    writeHead
  .perform BufOp.releaseLog

/-- Append the block of a held buffer to the log and record the block number,
but don't write the log header (which would commit the write). -/
def logWrite (sector : Nat) : BufProg Unit := do
  let log ← getLog
  Prog.when (log.lh.length ≥ LOGSIZE ∨ log.lh.length ≥ log.size - 1) (panic .tooBig)
  Prog.when (log.owner = none) (panic .outsideTrans)
  -- log absorption: the index of an earlier entry for the same sector, else `lh.n`
  let i := log.lh.idxOf sector
  bread (log.start + i + 1)
  let b ← peek sector
  poke (log.start + i + 1) b.data
  bwrite (log.start + i + 1)
  brelse (log.start + i + 1)
  Prog.when (i = log.lh.length) (setLh (log.lh ++ [sector]))
  setDirty sector

end Log

end SirpairOs
