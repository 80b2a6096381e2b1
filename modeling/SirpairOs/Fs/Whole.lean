import SirpairOs.Fs.File
import SirpairOs.Fs.Log

/-! The file system code over the buffer cache and the log of `bio.c` and `log.c`.
Here the log area is what it is on the disk, the sectors from `log.start` on, so
that a block of a file that lies there is seen to be overwritten by `log_write`
and `commit_trans`. -/
namespace SirpairOs

structure Whole where
  machine : Machine
  icache : InodePtr → Inode
  ftable : FilePtr → File
  procs : Nat → Proc
  devsw : Nat → Option Driver

namespace Whole

def tables (w : Whole) : Kernel :=
  ⟨w.machine.disk, fun _ => none, w.machine.log, w.icache, w.ftable, w.procs, w.devsw⟩

def block {α : Type} (pid : Nat) (p : BufProg α) (w : Whole) : Outcome Halt Whole α :=
  (p.run (BufOp.exec pid) w.machine).mapState fun m => { w with machine := m }

/-- The steps of the file system code, those on blocks performed by `bio.c` and
`log.c`. -/
def exec (pid : Nat) : Handler KOp KOp.Ret Halt Whole
  | .bread s, w => w.block pid do
      Bio.bread s
      let b ← Bio.peek s
      pure b.data
  | .logWrite s data, w => w.block pid do
      Bio.poke s data
      Log.logWrite s
  | .brelse s, w => w.block pid (Bio.brelse s)
  | .beginTrans, w => w.block pid Log.beginTrans
  | .commitTrans, w => w.block pid Log.commitTrans
  | o, w => (KOp.exec pid o w.tables).mapState fun k =>
    ⟨w.machine, k.icache, k.ftable, k.procs, k.devsw⟩

end Whole

end SirpairOs
