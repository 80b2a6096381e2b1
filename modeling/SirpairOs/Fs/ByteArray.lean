import SirpairOs.Fs.Truncate

/-! `readi` and `writei` as operations on an array of bytes, over any sequence of
calls on one inode, split into transactions in any way. -/
namespace SirpairOs

/-- The file of inode `i` as a list of `size` bytes; holes are zeros. -/
def Volume.contents (v : Volume) (i : Nat) : List UInt8 := v.bytes i 0 (v.node i).size

namespace Volume

variable (v : Volume) (i : Nat)

@[simp] theorem length_bytes (off n : Nat) : (v.bytes i off n).length = n := by
  rw [bytes, List.length_map, List.length_range]

@[simp] theorem length_contents : (v.contents i).length = (v.node i).size := v.length_bytes i 0 _

theorem getElem_bytes {off n t : Nat} (inside : t < (v.bytes i off n).length) :
    (v.bytes i off n)[t] = v.byteAt i (off + t) := by
  simp only [bytes, List.getElem_map, List.getElem_range]

theorem getElem_contents {t : Nat} (inside : t < (v.contents i).length) :
    (v.contents i)[t] = v.byteAt i t := by
  have byte : (v.contents i)[t] = v.byteAt i (0 + t) := v.getElem_bytes i inside
  rw [Nat.zero_add] at byte
  exact byte

/-- The bytes that `readi` returns are a slice of the file. -/
theorem bytes_eq_slice {off : Nat} (n : Nat) (inside : off ≤ (v.node i).size) :
    v.bytes i off (if off + n > (v.node i).size then (v.node i).size - off else n) =
      ((v.contents i).drop off).take n := by
  refine List.ext_getElem ?_ fun t left right => ?_
  · rw [length_bytes, List.length_take, List.length_drop, length_contents]
    split <;> omega
  · rw [getElem_bytes, List.getElem_take, List.getElem_drop, getElem_contents]

end Volume

namespace ByteArrays

/-- What `readi` is for: the bytes of `[off, off + n)` that exist. -/
def read (bytes : List UInt8) (off n : Nat) : Option (List UInt8) :=
  if off > bytes.length ∨ off + n ≥ 2 ^ 32 then none else some ((bytes.drop off).take n)

/-- What `writei` is for: the bytes of `[off, off + n)` are replaced. -/
def write (bytes : List UInt8) (off : Nat) (src : List UInt8) : Option (List UInt8) :=
  if off > bytes.length ∨ off + src.length ≥ 2 ^ 32 ∨ off + src.length > MAXFILE * BSIZE then none
  else some (bytes.take off ++ src ++ bytes.drop (off + src.length))

end ByteArrays

namespace Fs

open TransOwner (firstEntry)

inductive Call where
  | read (off n : UInt32)
  | write (off : UInt32) (src : List UInt8) (short : src.length < 2 ^ 32)
  /-- The transaction is committed and the next one begun. -/
  | next

inductive Reply where
  | bytes (result : Option (List UInt8))
  | count (result : Option Nat)
  | done
  deriving DecidableEq

def Call.run (ip : InodePtr) : Call → KProg Reply
  | read off n => do
    let result ← readi ip off.toNat n.toNat
    pure (.bytes result)
  | write off src _ => do
    let result ← writei ip src off.toNat
    pure (.count result)
  | next => do
    commitTrans
    beginTrans
    pure .done

def calls (ip : InodePtr) : List Call → KProg (List Reply)
  | [] => pure []
  | c :: rest => do
    let reply ← c.run ip
    let replies ← calls ip rest
    pure (reply :: replies)

/-- The reply of a byte array to a call, and its new contents. -/
def Call.onBytes (bytes : List UInt8) : Call → Reply × List UInt8
  | read off n => (.bytes (ByteArrays.read bytes off.toNat n.toNat), bytes)
  | write off src _ =>
    match ByteArrays.write bytes off.toNat src with
    | none => (.count none, bytes)
    | some bytes' => (.count (some src.length), bytes')
  | next => (.done, bytes)

def callsOnBytes : List UInt8 → List Call → List Reply × List UInt8
  | bytes, [] => ([], bytes)
  | bytes, c :: rest =>
    let first := c.onBytes bytes
    let later := callsOnBytes first.2 rest
    (first.1 :: later.1, later.2)

section Written

variable {ip : InodePtr} {i off : Nat} {src : List UInt8} {k k' : Kernel}
  (written : Written ip i off src k k') (held : k.Held ip) (num : (k.icache ip).inum = i)

include written

theorem Written.icache_self : ∃ addrs, k'.icache ip = { k.icache ip with
    din := { (k.icache ip).din with
      size := max (k.icache ip).din.size (off + src.length), addrs := addrs } } := by
  obtain ⟨addrs, same⟩ := written.entry
  exact ⟨addrs, by rw [same, Function.update_self]⟩

theorem Written.inum : (k'.icache ip).inum = (k.icache ip).inum := by
  obtain ⟨addrs, same⟩ := written.icache_self
  rw [same]

include held

theorem Written.held_after : k'.Held ip := by
  obtain ⟨addrs, same⟩ := written.icache_self
  constructor
  · rw [same]
    exact held.ref
  · rw [same]
    exact held.valid

include num

theorem Written.node_other {j : Nat} (other : j ≠ i) : k'.node j = k.node j := by
  obtain ⟨addrs, entry⟩ := written.entry
  have cached : KOp.cached k' j = KOp.cached k j := by
    have keep : KOp.cached (k.setInode ip fun _ => k'.icache ip) j = KOp.cached k j :=
      Kernel.cached_setInode written.inum (iff_of_true (written.held_after held).ref held.ref) j
    rw [← keep]
    rw [KOp.cached, KOp.cached]
    simp only [Kernel.setInode, entry, Function.update_self]
  rw [Kernel.node, Kernel.node, written.sb, cached]
  split
  · rfl
  rename_i inside
  cases found : KOp.cached k j with
  | none => exact written.onDisk j (by omega) other
  | some q =>
    have apart : q ≠ ip := by
      rintro rfl
      exact other ((Kernel.cached_eq_some found).2.symm.trans num)
    simp only [entry, Function.update_of_ne apart, written.onDisk j (by omega) other]

theorem Written.contents_other {j : Nat} (other : j ≠ i) :
    k'.vol.contents j = k.vol.contents j := by
  have node : k'.vol.node j = k.vol.node j := by
    rw [Kernel.vol_node, Kernel.vol_node, written.node_other held num other]
  have bytes (t : Nat) : k'.vol.byteAt j t = k.vol.byteAt j t := by
    rw [Volume.byteAt, written.others j other, Volume.byteAt]
  simp only [Volume.contents, Volume.bytes, node, bytes]

theorem Written.node_self : k'.vol.node i = (k'.icache ip).din := by
  rw [← num, ← written.inum, Kernel.vol_node,
    written.sound.cache.node_held (written.held_after held)]

theorem Written.contents (old : k.vol.node i = (k.icache ip).din)
    (inside : off ≤ (k.vol.node i).size) : k'.vol.contents i =
      (k.vol.contents i).take off ++ src ++ (k.vol.contents i).drop (off + src.length) := by
  have size : (k'.vol.node i).size = max (k.vol.node i).size (off + src.length) := by
    obtain ⟨addrs, same⟩ := written.icache_self
    rw [written.node_self held num, same, old]
  have first : ((k.vol.contents i).take off).length = off := by
    rw [List.length_take, Volume.length_contents, Nat.min_eq_left inside]
  refine List.ext_getElem ?_ fun t left right => ?_
  · simp only [List.length_append, List.length_take, List.length_drop, Volume.length_contents]
    omega
  · rw [Volume.length_contents] at left
    rw [Volume.getElem_contents, written.byteAt]
    by_cases before : t < off
    · rw [if_neg (by omega), List.getElem_append_left (by rw [List.length_append]; omega),
        List.getElem_append_left (by omega), List.getElem_take, Volume.getElem_contents]
    by_cases here : t < off + src.length
    · rw [if_pos ⟨by omega, here⟩, List.getElem_append_left (by rw [List.length_append]; omega),
        List.getElem_append_right (by omega), List.getD_eq_getElem _ _ (by omega)]
      simp only [first]
    · rw [if_neg (by omega), List.getElem_append_right (by rw [List.length_append]; omega),
        List.getElem_drop, Volume.getElem_contents, List.length_append, first]
      rw [Nat.add_sub_cancel' (by omega)]

end Written

/-- `balloc`, which starts by reading the super block, finds a free data block. -/
def FindsBlock : KOp → Kernel → Prop
  | .bread s, k => s = 1 → k.freeData ≠ []
  | _, _ => True

instance (o : KOp) (k : Kernel) : Decidable (FindsBlock o k) :=
  match o with
  | .bread s => inferInstanceAs (Decidable (s = 1 → k.freeData ≠ []))
  | .logWrite _ _ | .brelse _ | .beginTrans | .commitTrans | .iget _ | .idup _ | .lockInode _
  | .getInode _ | .setDin _ _ | .setValid _ | .iunlock _ | .putRef _ | .dropRef _ | .getCwd
  | .setCwd _ | .filealloc | .getFile _ | .setFile _ _ | .dropFile _ | .filedup _ | .getFd _
  | .setFd _ _ | .fdalloc _ | .devsw _ | .panic _ => isTrue trivial

def HasSpace (pid : Nat) (o : KOp) (k : Kernel) : Prop := FindsBlock o k ∧ KOp.Room pid o k

instance (pid : Nat) (o : KOp) (k : Kernel) : Decidable (HasSpace pid o k) :=
  inferInstanceAs (Decidable (_ ∧ _))

/-- A transaction is open, no buffer is locked, and `ip` is the cached inode `i`,
which is no device. Every block is owned by one slot. -/
structure Serving (ip : InodePtr) (i : Nat) (k : Kernel) : Prop where
  sound : k.Sound
  held : k.Held ip
  num : (k.icache ip).inum = i
  content : (k.vol.node i).type ≠ T_DEV
  idle : ∀ s, k.holder s = none
  inTrans : k.log.owner ≠ none

section Calls

variable {pid : Nat} {ip : InodePtr} {i : Nat} {k : Kernel}

theorem Serving.reader (serving : Serving ip i k) : Reader (fun _ _ => False) ip i k :=
  ⟨serving.sound, serving.held, .inr fun s taken => taken (serving.idle s), serving.num⟩

theorem Serving.ready (serving : Serving ip i k) (m : Nat) :
    Ready FindsBlock (fun _ _ => False) ip i m k :=
  ⟨serving.reader, .inr serving.inTrans, .inl fun _ finds => finds rfl⟩

theorem Serving.written (serving : Serving ip i k) {off : Nat} {src : List UInt8} {k' : Kernel}
    (written : Written ip i off src k k') : Serving ip i k' where
  sound := written.sound
  held := written.held_after serving.held
  num := written.inum.trans serving.num
  content := by
    have old := serving.content
    obtain ⟨addrs, same⟩ := written.icache_self
    rw [serving.reader.node] at old
    rw [written.node_self serving.held serving.num, same]
    exact old
  idle s := by
    rw [written.rest.holder]
    exact serving.idle s
  inTrans := by
    rw [written.rest.owner]
    exact serving.inTrans

/-- The effect of a call: the inode has the new contents, the others keep theirs. -/
structure Served (ip : InodePtr) (i : Nat) (bytes : List UInt8) (k k' : Kernel) : Prop where
  serving : Serving ip i k'
  contents : k'.vol.contents i = bytes
  others : ∀ j ≠ i, k'.vol.contents j = k.vol.contents j

theorem Served.refl (serving : Serving ip i k) : Served ip i (k.vol.contents i) k k :=
  ⟨serving, rfl, fun _ _ => rfl⟩

theorem Served.trans {bytes bytes' : List UInt8} {k' k'' : Kernel}
    (first : Served ip i bytes k k') (second : Served ip i bytes' k' k'') :
    Served ip i bytes' k k'' :=
  ⟨second.serving, second.contents, fun j other =>
    (second.others j other).trans (first.others j other)⟩

theorem Call.run_wp (serving : Serving ip i k) (c : Call) :
    Wp pid FindsBlock (fun _ _ => False) (c.run ip)
      (fun reply k' => reply = (c.onBytes (k.vol.contents i)).1 ∧
        Served ip i (c.onBytes (k.vol.contents i)).2 k k') k := by
  cases c with
  | read off n =>
    simp only [Call.onBytes]
    refine bind_wp (readi_wp serving.reader serving.content ⟨?_, .refl serving⟩)
    have wraps : (off.toNat + n.toNat) % 2 ^ 32 < off.toNat ↔ off.toNat + n.toNat ≥ 2 ^ 32 := by
      have := off.toNat_lt
      have := n.toNat_lt
      omega
    simp only [ByteArrays.read, wraps, Volume.length_contents]
    split
    · rfl
    · rename_i good
      rw [Volume.bytes_eq_slice _ _ _ (by omega)]
  | write off src short =>
    have huge : MAXFILE * BSIZE < 2 ^ 32 := by decide
    refine bind_wp (writei_wp (serving.ready _) serving.content (fun bad => ?_)
      fun inside fits k' written => ?_)
    · have refused : ByteArrays.write (k.vol.contents i) off.toNat src = none := by
        rw [ByteArrays.write, Volume.length_contents]
        exact if_pos (by omega)
      simp only [Call.onBytes, refused]
      exact ⟨rfl, .refl serving⟩
    · have taken : ByteArrays.write (k.vol.contents i) off.toNat src =
          some ((k.vol.contents i).take off.toNat ++ src ++
            (k.vol.contents i).drop (off.toNat + src.length)) := by
        rw [ByteArrays.write, Volume.length_contents]
        exact if_neg (by omega)
      simp only [Call.onBytes, taken]
      exact ⟨rfl, serving.written written,
        written.contents serving.held serving.num serving.reader.node inside,
        fun j => written.contents_other serving.held serving.num⟩
  | next =>
    simp only [Call.onBytes]
    intro _ _
    exact ⟨rfl, ⟨Kernel.Sound.congr (k := k) rfl rfl serving.sound,
      ⟨serving.held.ref, serving.held.valid⟩, serving.num, serving.content, serving.idle, nofun⟩,
      rfl, fun _ _ => rfl⟩

/-- The step finds free blocks, room in the log and buffers, and stays out of the log
area. -/
def HasRoom (pid : Nat) (o : KOp) (w : Whole) : Prop := HasSpace pid o w.kernel ∧ Whole.HasBuffer o w

instance (pid : Nat) (o : KOp) (w : Whole) : Decidable (HasRoom pid o w) :=
  inferInstanceAs (Decidable (HasSpace pid o w.kernel ∧ Whole.HasBuffer o w))

variable {w : Whole}

theorem Call.run_whole (serving : Serving ip i w.kernel) (steady : w.Steady) (c : Call) :
    Prog.wp (Whole.exec pid) (HasRoom pid) (c.run ip)
      (fun reply w' => (reply = (c.onBytes (w.kernel.vol.contents i)).1 ∧
        Served ip i (c.onBytes (w.kernel.vol.contents i)).2 w.kernel w'.kernel) ∧ w'.Steady)
      (fun _ _ => False) w := by
  have holds : Prog.wp (KOp.exec pid) (HasSpace pid) (c.run ip)
      (fun reply k' => reply = (c.onBytes (w.kernel.vol.contents i)).1 ∧
        Served ip i (c.onBytes (w.kernel.vol.contents i)).2 w.kernel k')
      (fun _ _ => False) w.kernel := by
    rw [KOp.exec_eq_guarded]
    exact Prog.wp_guarded_along (Call.run_wp serving c)
  have stays (plain : (c.run ip).Only (· ≠ .commitTrans)) := Whole.wp_follows plain steady holds
  have never (e : Halt) (w' : Whole) (halted : ∃ _ : Kernel, False) : False := halted.choose_spec
  cases c with
  | read off n =>
    apply Prog.wp_mono _ _ (stays _) (fun _ _ done => done) never
    exact ((readi_only ip _ _).mono LowerReading.lower).mono Lower.ne_commit |>.bind fun _ => trivial
  | write off src short =>
    apply Prog.wp_mono _ _ (stays _) (fun _ _ done => done) never
    exact ((writei_only ip _ _).mono Lower.ne_commit).bind fun _ => trivial
  | next =>
    rintro ⟨promised, room⟩
    have tail := holds promised
    apply (Whole.exec_follows steady room).mono
    · rintro r w' ⟨same, kept⟩
      rw [same] at tail
      apply Prog.wp_mono _ _ (Whole.wp_follows _ kept tail) (fun _ _ done => done) never
      exact ⟨nofun, fun _ => trivial⟩
    · rintro e w' (⟨k, halted⟩ | ⟨_, _, s, _, busy⟩)
      · cases halted
      · exact busy (serving.idle s)

theorem calls_wp (serving : Serving ip i w.kernel) (steady : w.Steady) (cs : List Call) :
    Prog.wp (Whole.exec pid) (HasRoom pid) (calls ip cs)
      (fun replies w' => replies = (callsOnBytes (w.kernel.vol.contents i) cs).1 ∧
        Served ip i (callsOnBytes (w.kernel.vol.contents i) cs).2 w.kernel w'.kernel)
      (fun _ _ => False) w := by
  induction cs generalizing w with
  | nil =>
    simp only [callsOnBytes]
    exact ⟨rfl, .refl serving⟩
  | cons c rest ih =>
    apply Prog.wp_seq _ _ (Call.run_whole serving steady c)
    rintro _ w₁ ⟨⟨rfl, first⟩, steady₁⟩
    apply Prog.wp_seq _ _ (ih first.serving steady₁)
    rintro _ w₂ ⟨rfl, later⟩
    rw [first.contents] at later
    simp only [callsOnBytes, first.contents]
    exact ⟨rfl, first.trans later⟩

/-- As long as disk, log and buffers have room, the calls on an inode are those on an array
of bytes. -/
theorem calls_refine_bytes (steady : w.Steady) (serving : Serving ip i w.kernel) (cs : List Call)
    (room : (calls ip cs).Along (Whole.exec pid) (HasRoom pid) w) :
    ∃ w', (calls ip cs).run (Whole.exec pid) w =
        .ok (callsOnBytes (w.kernel.vol.contents i) cs).1 w' ∧
      w'.kernel.vol.contents i = (callsOnBytes (w.kernel.vol.contents i) cs).2 ∧
      ∀ j ≠ i, w'.kernel.vol.contents j = w.kernel.vol.contents j := by
  have result := Prog.wp_sound _ _ (calls_wp serving steady cs) room
  cases done : (calls ip cs).run (Whole.exec pid) w with
  | halt e w' =>
    rw [done] at result
    exact result.elim
  | ok replies w' =>
    rw [done] at result
    obtain ⟨rfl, served⟩ := result
    exact ⟨w', rfl, served.contents, served.others⟩

/-- They leave every block that an inode has, directly or through index blocks, in one slot of one
inode, inside the data region and marked in the bitmap. -/
theorem calls_keep_ownership (steady : w.Steady) (serving : Serving ip i w.kernel) (cs : List Call)
    (room : (calls ip cs).Along (Whole.exec pid) (HasRoom pid) w) :
    ∃ replies w', (calls ip cs).run (Whole.exec pid) w = .ok replies w' ∧ ∀ j s,
      w'.kernel.vol.addr j s ≠ 0 → w'.kernel.used (w'.kernel.vol.addr j s) = true ∧
        (w'.kernel.sb.dataStart ≤ w'.kernel.vol.addr j s ∧
          w'.kernel.vol.addr j s < w'.kernel.sb.logStart) ∧
        ∀ j' s', w'.kernel.vol.addr j s = w'.kernel.vol.addr j' s' → j = j' ∧ s = s' := by
  have result := Prog.wp_sound _ _ (calls_wp serving steady cs) room
  cases done : (calls ip cs).run (Whole.exec pid) w with
  | halt e w' =>
    rw [done] at result
    exact result.elim
  | ok replies w' =>
    rw [done] at result
    have own := result.2.serving.sound.own
    refine ⟨replies, w', rfl, ?_⟩
    exact fun j s real => ⟨own.used_addr real, own.region j s real, fun _ _ => own.inj real⟩

end Calls

/-- If one inode owns its blocks and the others have none, the file system is
sound. -/
theorem OwnsBlocks.sound {k : Kernel} {ip : InodePtr} (owns : OwnsBlocks k ip) (held : k.Held ip)
    (cache : k.CacheOk) (empty : ∀ i ≠ (k.icache ip).inum, ∀ j, (k.node i).addrs j = 0)
    (system : ∀ b < k.sb.dataStart, k.used b = true) : k.Sound := by
  have self (s : Slot) : k.vol.addr (k.icache ip).inum s = s.addr k.disk (k.icache ip).din := by
    rw [Volume.addr, Kernel.vol_node, cache.node_held held]
    rfl
  have mine {i : Nat} {s : Slot} (real : k.vol.addr i s ≠ 0) : i = (k.icache ip).inum := by
    by_contra other
    exact real (Slot.addr_zero (empty i other) s)
  refine ⟨owns.layout, cache, ⟨⟨?_, ?_⟩, ?_⟩, system⟩
  · rintro ⟨i, s⟩ ⟨j, t⟩ real same
    obtain rfl := mine real
    obtain rfl := mine (i := j) (s := t) (same ▸ real)
    dsimp only at real same
    rw [self] at real same
    rw [self] at same
    rw [owns.exclusive.inj real same]
  · rintro ⟨i, s⟩ real
    obtain rfl := mine real
    dsimp only at real ⊢
    rw [self] at real ⊢
    exact owns.exclusive.used real
  · intro i s real
    obtain rfl := mine real
    rw [self] at real ⊢
    exact owns.region s real

def smallInode (n : Nat) : Dinode :=
  ⟨T_FILE, 0, 0, 1, BSIZE * n, fun j => if j < n then 8 * j + 9 else 0⟩

/-- Every eighth block is free, from the first data block on. -/
def smallBitmap : Block := Bytes.tabulate fun i => if i = 0 then 0xFF else 0xFE

/-- 128 blocks: one inode block, one bitmap block, data from block 5 on and a log of
ten blocks. -/
def smallDisk (n s : Nat) : Block :=
  match s with
  | 1 => Superblock.encode ⟨128, 113, 8, 10⟩
  | 2 => Dinode.encode Bytes.zero 1 (smallInode n)
  | 4 => smallBitmap
  | _ => Bytes.zero

def smallFile (n : Nat) : Kernel where
  disk := smallDisk n
  holder _ := none
  log := ⟨118, 10, some 0, []⟩
  icache ip :=
    if ip = firstEntry then ⟨1, 1, true, true, smallInode n⟩
    else ⟨0, 0, false, false, Dinode.zero⟩
  ftable _ := ⟨.none, 0, false, false, none, 0⟩
  procs _ := ⟨none, fun _ => none⟩
  devsw _ := none

section Small

variable {n : Nat}

theorem smallFile_sb : (smallFile n).sb = ⟨128, 113, 8, 10⟩ := by
  change Superblock.decode (Superblock.encode ⟨128, 113, 8, 10⟩) = _
  decide

theorem smallFile_only {p : InodePtr} (live : 0 < ((smallFile n).icache p).ref) :
    p = firstEntry := by
  by_contra other
  rw [smallFile] at live
  simp [other] at live

theorem smallFile_used {b : Nat} (inside : b < 128) : (smallFile n).used b = smallBitmap.bit b := by
  have sector : BBLOCK b 8 = 4 := by
    unfold BBLOCK BPB NINODEBLOCKS IPB
    omega
  have block : (smallFile n).disk 4 = smallBitmap := rfl
  rw [Kernel.used, smallFile_sb, sector, block, Nat.mod_eq_of_lt (by unfold BPB; omega)]

variable (few : n ≤ NDIRECT)

include few

theorem smallInode_fits : (smallInode n).Fits := by
  unfold NDIRECT at few
  refine ⟨rfl, rfl, rfl, rfl, ?_, fun j => ?_⟩
  · change BSIZE * n < 2 ^ 32
    unfold BSIZE
    omega
  · change (if (j : Nat) < n then 8 * (j : Nat) + 9 else 0) < 2 ^ 32
    split <;> omega

theorem smallFile_cache : (smallFile n).CacheOk := by
  have onDisk : (smallFile n).onDisk 1 = smallInode n :=
    Dinode.decode_encode_same _ _ (by decide) (smallInode_fits few)
  refine ⟨fun p q left right _ => (smallFile_only left).trans (smallFile_only right).symm,
    fun p live => ?_, fun p live _ => ?_, fun p live _ => ?_⟩
  · rw [smallFile_only live, smallFile_sb]
    exact (by decide : 1 < 8)
  · rw [smallFile_only live]
    exact smallInode_fits few
  · rw [smallFile_only live]
    exact onDisk ▸ .refl (smallInode n)

theorem smallFile_owns : OwnsBlocks (smallFile n) firstEntry := by
  have addrs (j : Fin (NDIRECT + 2)) : ((smallFile n).icache firstEntry).din.addrs j =
      if (j : Nat) < n then 8 * (j : Nat) + 9 else 0 := rfl
  have here {j : Fin (NDIRECT + 2)}
      (real : ((smallFile n).icache firstEntry).din.addrs j ≠ 0) : (j : Nat) < n := by
    by_contra beyond
    exact real (if_neg beyond)
  refine .of_direct ?_ ?_ (smallInode_fits few) ?_ ?_ (fun j l real same => ?_) fun j real => ?_
  · rw [smallFile_sb]
    refine ⟨fun b inside => ?_, by decide, by decide, by decide⟩
    simp only [BBLOCK, NINODEBLOCKS, Superblock.dataStart, BPB, IPB] at inside ⊢
    omega
  · rw [smallFile_sb]
    exact (by decide : 1 < 8)
  · exact if_neg (by simp only [INDIRECT]; omega)
  · exact if_neg (by simp only [DINDIRECT]; omega)
  · have first := here real
    have second := here (same ▸ real)
    rw [addrs, addrs, if_pos first, if_pos second] at same
    ext
    omega
  · have first := here real
    have bits : ∀ j < NDIRECT, smallBitmap.bit (8 * j + 9) = true := by decide
    have marked := bits j (by omega)
    unfold NDIRECT at few
    rw [addrs, if_pos first, smallFile_used (by omega), smallFile_sb, marked]
    simp only [Superblock.dataStart, Superblock.logStart, and_true]
    omega

theorem smallFile_serving : Serving firstEntry 1 (smallFile n) := by
  have held : (smallFile n).Held firstEntry := ⟨Int.one_pos, rfl⟩
  have node : (smallFile n).node 1 = smallInode n := (smallFile_cache few).node_held held
  refine ⟨(smallFile_owns few).sound held (smallFile_cache few) (fun i other j => ?_) ?_, held, rfl,
    ?_, fun _ => rfl, nofun⟩
  · by_cases inside : i < (smallFile n).sb.ninodes
    · rw [Kernel.node_uncached inside fun ip live same => ?_]
      · rw [smallFile_sb] at inside
        dsimp only at inside
        have block : IBLOCK i = 2 := by
          unfold IBLOCK IPB
          omega
        have apart : i % IPB ≠ 1 := by
          have : i ≠ 1 := other
          unfold IPB
          omega
        rw [Kernel.onDisk, block]
        have blank := Dinode.decode_encode_ne Bytes.zero (smallInode n) apart
        exact (congrArg (fun din => din.addrs j) blank).trans (Bytes.num_zero ..)
      · rw [smallFile_only live] at same
        exact other same.symm
    · rw [Kernel.node_outside (by omega)]
      rfl
  · have bits : ∀ b < 5, smallBitmap.bit b = true := by decide
    rw [smallFile_sb]
    intro b low
    simp only [Superblock.dataStart] at low
    rw [smallFile_used (by omega)]
    exact bits b low
  · rw [Kernel.vol_node, node]
    exact (by decide : T_FILE ≠ T_DEV)

end Small

/-- A write, a read over its end, and in the next transaction a write that grows
the file. -/
def someCalls : List Call :=
  [.write 0 [1, 2, 3] (by decide), .read 1 8, .next, .write 2 [7, 8] (by decide), .read 0 9]

/-- The small file on a machine on which nothing is cached. -/
abbrev smallWhole (n : Nat) : Whole := .fresh (smallFile n)

theorem smallDisk_log (n x : Nat) (inside : InLog 118 10 x) : smallDisk n x = Bytes.zero := by
  have low : 118 ≤ x := inside.1
  unfold smallDisk
  split
  · omega
  · omega
  · omega
  · rfl

theorem smallWhole_kernel (n : Nat) : (smallWhole n).kernel = smallFile n :=
  Whole.fresh_kernel (fun _ => rfl) (smallDisk_log n)

theorem smallWhole_serving {n : Nat} (few : n ≤ NDIRECT) :
    Serving firstEntry 1 (smallWhole n).kernel := by
  rw [smallWhole_kernel]
  exact smallFile_serving few

theorem calls_refine_some : ∃ w', (calls firstEntry someCalls).run (Whole.exec 0) (smallWhole 0) =
      .ok (callsOnBytes ((smallWhole 0).kernel.vol.contents 1) someCalls).1 w' ∧
    w'.kernel.vol.contents 1 =
      (callsOnBytes ((smallWhole 0).kernel.vol.contents 1) someCalls).2 ∧
    ∀ j ≠ 1, w'.kernel.vol.contents j = (smallWhole 0).kernel.vol.contents j :=
  calls_refine_bytes (Whole.fresh_steady rfl) (smallWhole_serving (by decide)) someCalls
    (by decide +kernel)

theorem calls_keep_ownership_some :
    ∃ replies w', (calls firstEntry someCalls).run (Whole.exec 0) (smallWhole 0) = .ok replies w' ∧
      ∀ j s, w'.kernel.vol.addr j s ≠ 0 → w'.kernel.used (w'.kernel.vol.addr j s) = true := by
  have room : (calls firstEntry someCalls).Along (Whole.exec 0) (HasRoom 0) (smallWhole 0) := by
    decide +kernel
  obtain ⟨replies, w', ran, owned⟩ := calls_keep_ownership (Whole.fresh_steady rfl)
    (smallWhole_serving (by decide)) someCalls room
  exact ⟨replies, w', ran, fun j s real => (owned j s real).1⟩

def tenBlocks : Call :=
  .write 0 (List.replicate (10 * BSIZE) 1) (by
    rw [List.length_replicate]
    decide)

/-- Ten blocks in one transaction are too many for the log. -/
theorem write_too_big : (smallWhole 10).Steady ∧ Serving firstEntry 1 (smallWhole 10).kernel ∧
    (calls firstEntry [tenBlocks]).Along (Whole.exec 0) (fun o w => FindsBlock o w.kernel)
      (smallWhole 10) ∧
    ((calls firstEntry [tenBlocks]).run (Whole.exec 0) (smallWhole 10)).reason =
      some (.panic .tooBig) :=
  ⟨Whole.fresh_steady rfl, smallWhole_serving (by decide), by decide +kernel, by decide +kernel⟩

end Fs

end SirpairOs
