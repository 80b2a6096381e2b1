import SirpairOs.Fs.Inode

/-! Directories and path names of `kernel/fs.c`. -/
namespace SirpairOs.Fs

/-- The offsets `from, from + 16, ...` below `size`. -/
def entryOffsets (start size : Nat) : List Nat :=
  (List.range ((size - start + Dirent.SIZE - 1) / Dirent.SIZE)).map fun i =>
    start + i * Dirent.SIZE

/-- `readi` of one directory entry; anything but 16 bytes is a panic. -/
def readEntry (dp : InodePtr) (off : Nat) (which : Panic) : KProg Dirent := do
  let bytes ← readi dp off Dirent.SIZE
  match bytes with
  | some bytes => if bytes.length = Dirent.SIZE then pure (Dirent.decode bytes) else panic which
  | none => panic which

def lookupFrom (dp : InodePtr) (name : List UInt8) : List Nat → KProg (Option (InodePtr × Nat))
  | [] => pure none
  | off :: rest => do
    let de ← readEntry dp off .dirlinkRead
    if de.inum = 0 then lookupFrom dp name rest
    else if namecmp name de.name then do
      let ip ← iget de.inum
      pure (some (ip, off))
    else lookupFrom dp name rest

/-- Look for a directory entry in a directory; the inode and the byte offset of
the entry. -/
def dirlookup (dp : InodePtr) (name : List UInt8) : KProg (Option (InodePtr × Nat)) := do
  let e ← getInode dp
  if e.din.type ≠ T_DIR then panic .dirlookupNotDir
  else lookupFrom dp name (entryOffsets 0 e.din.size)

/-- The loop of `dirlink` that looks for an empty entry; without one, the offset
after the last entry. -/
def emptyFrom (dp : InodePtr) (last : Nat) : List Nat → KProg Nat
  | [] => pure last
  | off :: rest => do
    let de ← readEntry dp off .dirlinkRead
    if de.inum = 0 then pure off else emptyFrom dp last rest

/-- Write a new directory entry (name, inum) into the directory `dp`; false is
the result `-1`. -/
def dirlink (dp : InodePtr) (name : List UInt8) (inum : Nat) : KProg Bool := do
  let present ← dirlookup dp name
  match present with
  | some (ip, _) => do
    iput ip
    pure false
  | none => do
    let e ← getInode dp
    let offsets := entryOffsets 0 e.din.size
    let off ← emptyFrom dp (offsets.length * Dirent.SIZE) offsets
    let written ← writei dp (Dirent.encode ⟨inum, name⟩) off
    if written = some Dirent.SIZE then pure true else panic .dirlink

def SLASH : UInt8 := 47

def skipSlashes (path : List UInt8) : List UInt8 := path.dropWhile fun c => c = SLASH

/-- Copy the next path element from `path`: the element, cut to `DIRSIZ` bytes,
and what follows it without leading slashes. `none` if there is no element. -/
def skipelem (path : List UInt8) : Option (List UInt8 × List UInt8) :=
  let path := skipSlashes path
  if path.headD 0 = 0 then none
  else
    let elem := path.takeWhile fun c => c ≠ SLASH ∧ c ≠ 0
    some (elem.take DIRSIZ, skipSlashes (path.drop elem.length))

/-- Each element shortens the path. -/
theorem length_skipelem {path elem rest : List UInt8} (found : skipelem path = some (elem, rest)) :
    rest.length < path.length := by
  rw [skipelem] at found
  have outer : (skipSlashes path).length ≤ path.length := (List.dropWhile_suffix _).length_le
  revert found outer
  generalize skipSlashes path = tail
  intro found outer
  dsimp only at found
  split at found
  · cases found
  rename_i more
  obtain ⟨_, rfl⟩ := Prod.mk.inj (Option.some.inj found)
  cases tail with
  | nil => exact absurd rfl more
  | cons c tail =>
    have skip (l : List UInt8) : (skipSlashes l).length ≤ l.length :=
      (List.dropWhile_suffix _).length_le
    by_cases slash : c = SLASH
    · have first : (c :: tail).takeWhile (fun c => c ≠ SLASH ∧ c ≠ 0) = [] := by
        rw [List.takeWhile_cons_of_neg (by simp [slash])]
      have dropped : skipSlashes (c :: tail) = skipSlashes tail :=
        List.dropWhile_cons_of_pos (by simp [slash])
      have := skip tail
      rw [first, List.length_nil, List.drop_zero, dropped]
      rw [List.length_cons] at outer
      omega
    · have real : c ≠ 0 := more
      rw [List.takeWhile_cons_of_pos (by simp [slash, real]), List.length_cons, List.drop_succ_cons]
      have := skip (tail.drop (tail.takeWhile fun c => c ≠ SLASH ∧ c ≠ 0).length)
      rw [List.length_drop] at this
      rw [List.length_cons] at outer
      omega

/-- The loop of `namex`: look up the elements of `path` from `ip` on. Every round
takes an element off the path, so its length bounds the rounds. With `parent`,
the directory of the last element and that element. -/
def namexFrom (parent : Bool) :
    Nat → InodePtr → List UInt8 → List UInt8 → KProg (Option (InodePtr × List UInt8))
  | 0, _, _, _ => pure none
  | fuel + 1, ip, name, path =>
    match skipelem path with
    | none =>
      if parent then do
        iput ip
        pure none
      else pure (some (ip, name))
    | some (name, path) => do
      ilock ip
      let e ← getInode ip
      if e.din.type ≠ T_DIR then do
        iunlockput ip
        pure none
      else if parent ∧ path.headD 0 = 0 then do
        iunlock ip
        pure (some (ip, name))
      else do
        let next ← dirlookup ip name
        match next with
        | none => do
          iunlockput ip
          pure none
        | some (next, _) => do
          iunlockput ip
          namexFrom parent fuel next name path

/-- Where a lookup starts: the root or the current directory. -/
def namexStart (path : List UInt8) : KProg InodePtr :=
  if path.headD 0 = SLASH then iget ROOTINO else getCwd >>= idup

def namex (path : List UInt8) (parent : Bool) : KProg (Option (InodePtr × List UInt8)) := do
  let ip ← namexStart path
  namexFrom parent (path.length + 1) ip [] path

def namei (path : List UInt8) : KProg (Option InodePtr) := do
  let found ← namex path false
  pure (found.map Prod.fst)

def nameiparent (path : List UInt8) : KProg (Option (InodePtr × List UInt8)) :=
  namex path true

end SirpairOs.Fs
