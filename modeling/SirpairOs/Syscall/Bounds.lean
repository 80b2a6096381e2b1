import SirpairOs.Syscall.Model

/-! Where the buffers of system calls lie: a buffer that `argptr` has accepted lies in the
process if its length, taken as an `int`, is not negative. -/
namespace SirpairOs.Syscall

variable {e : Env}

theorem int_nonneg_iff (w : UInt32) : 0 ≤ int w ↔ w.toNat < 2 ^ 31 := by
  have := w.toNat_lt
  rw [int]
  split_ifs with small
  · rw [UInt32.lt_iff_toNat_lt] at small
    exact iff_of_true (by omega) small
  · rw [UInt32.lt_iff_toNat_lt] at small
    refine iff_of_false (by omega) small

theorem int_toNat_le (w : UInt32) : (int w).toNat ≤ w.toNat := by
  rw [int]
  split_ifs <;> omega

variable {p : UInt32} {s : Store}

theorem toNat_off {off : Nat} (fits : p.toNat + off < 2 ^ 32) :
    (p + UInt32.ofNat off).toNat = p.toNat + off := by
  rw [UInt32.toNat_add, UInt32.toNat_ofNat', Nat.mod_eq_of_lt (by omega : off < 2 ^ 32),
    Nat.mod_eq_of_lt fits]

theorem argptr_eq_some {n size : UInt32} (accepted : argptr e n size = some p) :
    p.toNat < e.sz.toNat ∧ (p + size).toNat ≤ e.sz.toNat := by
  obtain ⟨i, -, check⟩ := Option.bind_eq_some_iff.mp accepted
  split_ifs at check with bad
  cases check
  rw [not_or, ge_iff_le, UInt32.not_le, gt_iff_lt, UInt32.not_lt] at bad
  exact ⟨UInt32.lt_iff_toNat_lt.mp bad.1, UInt32.le_iff_toNat_le.mp bad.2⟩

theorem argptr_le {n size : UInt32} (accepted : argptr e n size = some p)
    (small : size.toNat < 2 ^ 31) : p.toNat + size.toNat ≤ e.sz.toNat := by
  obtain ⟨lt, le⟩ := argptr_eq_some accepted
  have below := e.below
  simp only [Mem.KERNBASE] at below
  rwa [UInt32.toNat_add, Nat.mod_eq_of_lt (by omega)] at le

def Inside (e : Env) (s : Store) : Prop := ∀ a ∈ s.addrs, a < e.sz

theorem mem_addrs {a : UInt32} : a ∈ s.addrs ↔ ∃ i < s.len, s.addr + UInt32.ofNat i = a := by
  simp [Store.addrs]

theorem inside_of_le (le : s.addr.toNat + s.len ≤ e.sz.toNat) : Inside e s := by
  intro a member
  obtain ⟨i, below, rfl⟩ := mem_addrs.mp member
  have := e.sz.toNat_lt
  rw [UInt32.lt_iff_toNat_lt, toNat_off (by omega)]
  omega

theorem Inside.addr_lt (inside : Inside e s) (pos : 0 < s.len) : s.addr.toNat < e.sz.toNat := by
  have first := inside (s.addr + UInt32.ofNat 0) (mem_addrs.mpr ⟨0, pos, rfl⟩)
  rwa [UInt32.lt_iff_toNat_lt, toNat_off s.addr.toNat_lt, Nat.add_zero] at first

/-- What begins in the process stays there if it ends there: it does not get around the
address space without crossing `sz`. -/
theorem inside_iff (near : s.addr.toNat ≤ e.sz.toNat) :
    Inside e s ↔ s.addr.toNat + s.len ≤ e.sz.toNat := by
  refine ⟨fun inside => ?_, inside_of_le⟩
  by_contra beyond
  have := e.sz.toNat_lt
  have last := inside (s.addr + UInt32.ofNat (e.sz.toNat - s.addr.toNat))
    (mem_addrs.mpr ⟨_, by omega, rfl⟩)
  rw [UInt32.lt_iff_toNat_lt, toNat_off (by omega)] at last
  omega

def AllInside (e : Env) (stores : List Store) : Prop := ∀ s ∈ stores, Inside e s

theorem allInside_nil : AllInside e [] := nofun

theorem allInside_cons {rest : List Store} :
    AllInside e (s :: rest) ↔ Inside e s ∧ AllInside e rest := List.forall_mem_cons

theorem allInside_singleton : AllInside e [s] ↔ Inside e s := by
  rw [allInside_cons]
  exact and_iff_left allInside_nil

theorem readiLoop_allInside_iff {dst : UInt32} {off n : Nat} (near : dst.toNat ≤ e.sz.toNat) :
    AllInside e (readiLoop dst off n) ↔ dst.toNat + n ≤ e.sz.toNat := by
  have fits := e.sz.toNat_lt
  fun_induction readiLoop dst off n with
  | case1 dst off n more m ih =>
    have part : m ≤ n := Nat.min_le_left ..
    have next (le : dst.toNat + m ≤ e.sz.toNat) :
        (dst + UInt32.ofNat m).toNat = dst.toNat + m := toNat_off (by omega)
    rw [allInside_cons, inside_iff near]
    dsimp only
    constructor
    · rintro ⟨first, rest⟩
      have rest := (ih (by rw [next first]; exact first)).mp rest
      rw [next first] at rest
      omega
    · intro le
      have first : dst.toNat + m ≤ e.sz.toNat := by omega
      refine ⟨first, (ih (by rw [next first]; exact first)).mpr ?_⟩
      rw [next first]
      omega
  | case2 dst off n none => exact iff_of_true allInside_nil (by omega)

theorem copyout_allInside {mapped : UInt32 → Bool} {va : UInt32} {len : Nat}
    (le : va.toNat + len ≤ e.sz.toNat) : AllInside e (copyout mapped va len) := by
  have below := e.below
  simp only [Mem.KERNBASE] at below
  fun_induction copyout mapped va len with
  | case1 va len more found room ih =>
    have small : room ≤ Mem.PGSIZE := Nat.sub_le ..
    simp only [Mem.PGSIZE] at small
    refine allInside_cons.mpr ⟨inside_of_le (by dsimp only; omega), ?_⟩
    by_cases last : len ≤ room
    · rw [Nat.min_eq_right last, Nat.sub_self, copyout, if_neg (Nat.lt_irrefl 0)]
      exact allInside_nil
    · refine ih ?_
      rw [toNat_off (by omega)]
      omega
  | case2 => exact allInside_nil
  | case3 => exact allInside_nil

/-- The bytes that a read of `n` finds in the file. -/
def File.bytes : File → UInt32 → Nat
  | .pipe true (some avail), n => min (int n).toNat avail
  | .usock true rx, n => rx.bytes n
  | .tcp true (some remain), n => min n.toNat remain
  | .console true input, n => consoleread (int n).toNat input
  | .inode true size off, n =>
    if off ≤ size ∧ off.toNat + n.toNat < 2 ^ 32 then min n.toNat (size.toNat - off.toNat) else 0
  | _, _ => 0

theorem consoleread_le (n : Nat) (input : List UInt8) : consoleread n input ≤ n := by
  fun_induction consoleread n input with
  | case1 => exact Nat.le_refl _
  | case2 => exact Nat.zero_le _
  | case3 => exact Nat.zero_le _
  | case4 => omega
  | case5 n c rest _ _ ih => omega

/-- A read stores no more than it was asked for. -/
theorem File.bytes_le (f : File) (n : UInt32) : f.bytes n ≤ n.toNat := by
  have := int_toNat_le n
  fun_induction File.bytes f n with
  | case1 => omega
  | case2 n rx ih => exact ih this
  | case3 => omega
  | case4 n input => exact Nat.le_trans (consoleread_le _ _) this
  | case5 => omega
  | case6 => omega
  | case7 => omega

theorem readi_eq (size off dst n : UInt32) : readi size off dst n =
    readiLoop dst off.toNat ((File.inode true size off).bytes n) := by
  have := n.toNat_lt
  have sum : (off + n).toNat = (off.toNat + n.toNat) % 2 ^ 32 := UInt32.toNat_add ..
  simp only [readi, File.bytes, gt_iff_lt, UInt32.lt_iff_toNat_lt, UInt32.le_iff_toNat_le, sum]
  by_cases good : off.toNat ≤ size.toNat ∧ off.toNat + n.toNat < 2 ^ 32
  · rw [if_neg (by omega), if_pos good, Nat.mod_eq_of_lt good.2]
    split_ifs with clamped
    · rw [UInt32.toNat_sub_of_le _ _ (UInt32.le_iff_toNat_le.mpr good.1),
        Nat.min_eq_right (by omega)]
    · rw [Nat.min_eq_left (by omega)]
  · rw [if_pos (by omega), if_neg good, readiLoop, if_neg (Nat.lt_irrefl 0)]

theorem fileread_allInside_iff (f : File) (n : UInt32) (near : p.toNat ≤ e.sz.toNat) :
    AllInside e (fileread f p n) ↔ p.toNat + f.bytes n ≤ e.sz.toNat := by
  have none : AllInside e [] ↔ p.toNat + 0 ≤ e.sz.toNat := iff_of_true allInside_nil near
  have one (len : Nat) : AllInside e [⟨p, len⟩] ↔ p.toNat + len ≤ e.sz.toNat :=
    allInside_singleton.trans (inside_iff near)
  induction f with
  | pipe readable data | tcp readable data =>
    cases readable with
    | false => exact none
    | true =>
      cases data with
      | none => exact none
      | some avail => exact one _
  | usock readable rx ih =>
    cases readable with
    | false => exact none
    | true => exact ih
  | unconnected readable => exact none
  | udp readable datagram => exact none
  | console readable input =>
    cases readable with
    | false => exact none
    | true => exact one _
  | device readable => exact none
  | inode readable size off =>
    cases readable with
    | false => exact none
    | true =>
      rw [fileread, if_pos rfl, readi_eq]
      exact readiLoop_allInside_iff near

theorem safestrcpy_le (t : List UInt8) (n : Nat) : safestrcpy t n ≤ n := by
  fun_induction safestrcpy t n <;> omega

theorem safestrcpy_pos (t : List UInt8) {n : Nat} (pos : 0 < n) : 0 < safestrcpy t n := by
  fun_cases safestrcpy t n <;> omega

/-- The end of the last record that `getprocs` stores, from the beginning of the buffer. -/
def tableEnd (max : Int) : List (Option (List UInt8)) → Nat → Nat
  | [], _ => 0
  | p :: rest, count =>
    if (count : Int) < max then
      match p with
      | none => tableEnd max rest count
      | some name =>
        Nat.max (36 * count + 20 + safestrcpy name 16) (tableEnd max rest (count + 1))
    else 0

theorem tableEnd_le (max : Int) (procs : List (Option (List UInt8))) (count : Nat) :
    tableEnd max procs count ≤ 36 * max.toNat := by
  fun_induction tableEnd max procs count with
  | case1 => exact Nat.zero_le _
  | case2 rest count more ih => exact ih
  | case3 rest count more name ih =>
    refine Nat.max_le.mpr ⟨?_, ih⟩
    have := safestrcpy_le name 16
    omega
  | case4 => exact Nat.zero_le _

theorem record_allInside_iff {at' : UInt32} {k : Nat} (fits : at'.toNat + 36 < 2 ^ 32) (pos : 0 < k) :
    AllInside e [⟨at', 4⟩, ⟨at' + 4, 4⟩, ⟨at' + 8, 4⟩, ⟨at' + 12, 4⟩, ⟨at' + 16, 4⟩, ⟨at' + 20, k⟩] ↔
      at'.toNat + 20 + k ≤ e.sz.toNat := by
  have off (n : Nat) (small : n ≤ 20) : (at' + UInt32.ofNat n).toNat = at'.toNat + n :=
    toNat_off (by omega)
  constructor
  · intro all
    have last : Inside e ⟨at' + UInt32.ofNat 20, k⟩ := all _ (by simp)
    have lt := last.addr_lt pos
    have le := (inside_iff (Nat.le_of_lt lt)).mp last
    rwa [off 20 (by omega)] at le
  · intro le
    have field (n len : Nat) (inside : n + len ≤ 20) : Inside e ⟨at' + UInt32.ofNat n, len⟩ :=
      inside_of_le (by rw [off n (by omega)]; dsimp only; omega)
    have last : Inside e ⟨at' + UInt32.ofNat 20, k⟩ :=
      inside_of_le (by rw [off 20 (by omega)]; exact le)
    simp only [allInside_cons]
    exact ⟨inside_of_le (by dsimp only; omega), field 4 4 (by omega), field 8 4 (by omega),
      field 12 4 (by omega), field 16 4 (by omega), last, allInside_nil⟩

theorem getprocs_allInside_iff {pinfos : UInt32} (max : Int) (procs : List (Option (List UInt8)))
    (count : Nat) (near : pinfos.toNat ≤ e.sz.toNat) (few : count + procs.length ≤ NPROC) :
    AllInside e (getprocs pinfos max procs count) ↔
      pinfos.toNat + tableEnd max procs count ≤ e.sz.toNat := by
  have below := e.below
  simp only [Mem.KERNBASE, NPROC] at below few
  fun_induction tableEnd max procs count with
  | case1 count => exact iff_of_true allInside_nil near
  | case2 rest count more ih =>
    rw [getprocs, if_pos more]
    exact ih (by rw [List.length_cons] at few; omega)
  | case3 rest count more name ih =>
    rw [List.length_cons] at few
    have here : (pinfos + UInt32.ofNat (36 * count)).toNat = pinfos.toNat + 36 * count :=
      toNat_off (by omega)
    rw [getprocs, if_pos more]
    dsimp only
    rw [AllInside, List.forall_mem_append]
    refine (and_congr (record_allInside_iff (by omega) (safestrcpy_pos name (by decide)))
      (ih (by omega))).trans ?_
    rw [here]
    simp only [Nat.max_def]
    split_ifs <;> omega
  | case4 p rest count done =>
    unfold getprocs
    rw [if_neg done]
    exact iff_of_true allInside_nil near

/-- What a call stores after it got one of its arguments. -/
theorem allInside_bind {α : Type} (arg : Option α) (next : α → Option (List Store)) :
    AllInside e ((arg >>= next).getD []) ↔ ∀ a, arg = some a → AllInside e ((next a).getD []) := by
  cases arg with
  | none => exact iff_of_true allInside_nil nofun
  | some a => exact ⟨fun all _ same => Option.some.inj same ▸ all, fun all => all a rfl⟩

/-- The fields of a structure behind an accepted pointer; a field is its offset and length. -/
theorem allInside_fields {size : Nat} (le : p.toNat + size ≤ e.sz.toNat) (fields : List (Nat × Nat))
    (part : ∀ f ∈ fields, f.1 + f.2 ≤ size) :
    AllInside e (fields.map fun f => ⟨p + UInt32.ofNat f.1, f.2⟩) := by
  have := e.sz.toNat_lt
  intro s member
  obtain ⟨f, here, rfl⟩ := List.mem_map.mp member
  have := part f here
  refine inside_of_le ?_
  rw [toNat_off (by omega)]
  dsimp only
  omega

theorem off_zero (p : UInt32) : p + UInt32.ofNat 0 = p := UInt32.add_zero p

theorem sysFstat_allInside : AllInside e ((sysFstat e).getD []) := by
  refine (allInside_bind _ _).mpr fun f _ => (allInside_bind _ _).mpr fun st accepted => ?_
  have all := allInside_fields (argptr_le accepted (by decide))
    [(4, 4), (8, 4), (0, 2), (12, 2), (16, 4)] (by decide)
  simp only [List.map, off_zero] at all
  split
  · exact all
  · exact all
  · exact all
  · exact allInside_nil

theorem sysPipe_allInside : AllInside e ((sysPipe e).getD []) := by
  refine (allInside_bind _ _).mpr fun fd accepted => ?_
  have all := allInside_fields (argptr_le accepted (by decide)) [(0, 4), (4, 4)] (by decide)
  simp only [List.map, off_zero] at all
  split
  · exact all
  · exact allInside_nil

theorem sysStatfs_allInside : AllInside e ((sysStatfs e).getD []) := by
  refine (allInside_bind _ _).mpr fun st accepted => ?_
  have all := allInside_fields (argptr_le accepted (by decide))
    [(0, 4), (4, 4), (8, 4), (12, 4), (16, 4), (20, 4)] (by decide)
  simp only [List.map, off_zero] at all
  exact all

theorem sysConsize_allInside : AllInside e ((sysConsize e).getD []) := by
  refine (allInside_bind _ _).mpr fun urows first => (allInside_bind _ _).mpr fun ucols second => ?_
  exact allInside_cons.mpr ⟨inside_of_le (argptr_le first (by decide)),
    allInside_singleton.mpr (inside_of_le (argptr_le second (by decide)))⟩

theorem sysMouse_allInside : AllInside e ((sysMouse e).getD []) := by
  refine (allInside_bind _ _).mpr fun op _ => ?_
  split
  · exact allInside_nil
  · refine (allInside_bind _ _).mpr fun pev accepted => ?_
    split
    · exact copyout_allInside (argptr_le accepted (by decide))
    · exact allInside_nil

theorem sysGetnetcfg_allInside : AllInside e ((sysGetnetcfg e).getD []) :=
  (allInside_bind _ _).mpr fun _ accepted => copyout_allInside (argptr_le accepted (by decide))

theorem sysDig_allInside : AllInside e ((sysDig e).getD []) := by
  refine (allInside_bind _ _).mpr fun uip accepted => ?_
  split
  · exact copyout_allInside (argptr_le accepted (by decide))
  · exact allInside_nil

theorem sysGetcwd_allInside : AllInside e ((sysGetcwd e).getD []) := by
  refine (allInside_bind _ _).mpr fun size _ => ?_
  split
  · exact allInside_nil
  rename_i pos
  refine (allInside_bind _ _).mpr fun ubuf accepted => ?_
  have small := (int_nonneg_iff size).mp (by omega)
  have value : int size = size.toNat := if_pos (UInt32.lt_iff_toNat_lt.mpr small)
  have le := argptr_le accepted small
  refine (allInside_bind _ _).mpr fun comps _ => ?_
  split
  · split
    · exact allInside_nil
    · have all := allInside_fields le [(0, 1), (1, 1)] (by simp; omega)
      simp only [List.map, off_zero] at all
      exact all
  · refine (allInside_bind _ _).mpr fun len _ => ?_
    split
    · exact allInside_nil
    · exact allInside_singleton.mpr (inside_of_le (by dsimp only; omega))

theorem sysRecvfrom_allInside : AllInside e ((sysRecvfrom e).getD []) := by
  refine (allInside_bind _ _).mpr fun f _ => (allInside_bind _ _).mpr fun n _ =>
    (allInside_bind _ _).mpr fun buf accepted => (allInside_bind _ _).mpr fun srcIp first =>
      (allInside_bind _ _).mpr fun srcPort second => ?_
  split
  · split
    · exact allInside_nil
    rename_i good
    split
    · exact allInside_nil
    refine (allInside_bind _ _).mpr fun len _ => ?_
    have small := (int_nonneg_iff n).mp (by omega)
    have le := argptr_le accepted small
    refine allInside_cons.mpr ⟨inside_of_le ?_, allInside_cons.mpr
      ⟨inside_of_le (argptr_le first (by decide)),
        allInside_singleton.mpr (inside_of_le (argptr_le second (by decide)))⟩⟩
    have := Nat.min_le_left n.toNat len
    dsimp only
    omega
  · exact allInside_nil

/-- A call that computes the length of its buffer from an argument: the length is not
negative and did not overflow, or what there is to store fits anyway. -/
def Call.Fits (e : Env) : Call → Prop
  | read | recv => ∀ f n p, argfd e 0 = some f → argint e 2 = some n → argptr e 1 n = some p →
      0 ≤ int n ∨ p.toNat + f.bytes n ≤ e.sz.toNat
  | getprocs => ∀ max p, argint e 1 = some max → argptr e 0 (max * 36) = some p →
      int max * 36 < 2 ^ 31 ∨ p.toNat + tableEnd (int max) e.procs 0 ≤ e.sz.toNat
  | _ => True

theorem sysRead_allInside_iff : AllInside e ((sysRead e).getD []) ↔ Call.read.Fits e := by
  refine (allInside_bind _ _).trans (forall_congr' fun f => ?_)
  refine ⟨fun all n p file len accepted => ?_, fun fits file => ?_⟩
  · have inside := (allInside_bind _ _).mp ((allInside_bind _ _).mp (all file) n len) p accepted
    exact .inr ((fileread_allInside_iff f n (Nat.le_of_lt (argptr_eq_some accepted).1)).mp inside)
  · refine (allInside_bind _ _).mpr fun n len => (allInside_bind _ _).mpr fun p accepted => ?_
    refine (fileread_allInside_iff f n (Nat.le_of_lt (argptr_eq_some accepted).1)).mpr ?_
    rcases fits n p file len accepted with nonneg | le
    · have := argptr_le accepted ((int_nonneg_iff n).mp nonneg)
      have := f.bytes_le n
      omega
    · exact le

theorem sysGetprocs_allInside_iff : AllInside e ((sysGetprocs e).getD []) ↔ Call.getprocs.Fits e := by
  have table : 0 + e.procs.length ≤ NPROC := Nat.le_of_eq ((Nat.zero_add _).trans e.table)
  refine (allInside_bind _ _).trans (forall_congr' fun max => ?_)
  refine ⟨fun all p arg accepted => ?_, fun fits arg => ?_⟩
  · have inside := (allInside_bind _ _).mp (all arg) p accepted
    exact .inr ((getprocs_allInside_iff _ _ 0 (Nat.le_of_lt (argptr_eq_some accepted).1) table).mp inside)
  · refine (allInside_bind _ _).mpr fun p accepted => ?_
    have lt := (argptr_eq_some accepted).1
    refine (getprocs_allInside_iff _ _ 0 (Nat.le_of_lt lt) table).mpr ?_
    rcases fits p arg accepted with small | le
    · have bound := tableEnd_le (int max) e.procs 0
      by_cases nonneg : 0 ≤ int max
      · have value : int max = max.toNat :=
          if_pos (UInt32.lt_iff_toNat_lt.mpr ((int_nonneg_iff max).mp nonneg))
        have product : (max * 36).toNat = max.toNat * 36 := by
          rw [UInt32.toNat_mul, show (36 : UInt32).toNat = 36 from rfl]
          exact Nat.mod_eq_of_lt (by omega)
        have := argptr_le accepted (by rw [product]; omega)
        omega
      · omega
    · exact le

/-- Every address that a call stores to lies in the process exactly when its buffer has the
length that the call was given. -/
theorem stores_inside_iff (e : Env) (call : Call) :
    (∀ s ∈ call.stores e, ∀ a ∈ s.addrs, a < e.sz) ↔ call.Fits e := by
  cases call with
  | read | recv => exact sysRead_allInside_iff
  | getprocs => exact sysGetprocs_allInside_iff
  | fstat => exact iff_of_true sysFstat_allInside trivial
  | getcwd => exact iff_of_true sysGetcwd_allInside trivial
  | recvfrom => exact iff_of_true sysRecvfrom_allInside trivial
  | pipe => exact iff_of_true sysPipe_allInside trivial
  | statfs => exact iff_of_true sysStatfs_allInside trivial
  | consize => exact iff_of_true sysConsize_allInside trivial
  | mouse => exact iff_of_true sysMouse_allInside trivial
  | getnetcfg => exact iff_of_true sysGetnetcfg_allInside trivial
  | dig => exact iff_of_true sysDig_allInside trivial
  | write | send | sendto | gui => exact iff_of_true nofun trivial

/-- A process of 4097 bytes calls `read(0, (char*)4096, -1)` on a file of two bytes. -/
def negative : Env where
  sz := 4097
  below := by decide
  esp := 0
  word := fun addr => if addr = 8 then 4096 else if addr = 12 then 0xffffffff else 0
  mapped := fun _ => true
  ofile := fun fd => if fd.val = 0 then some (.inode true 2 0) else none
  cwd := none
  procs := List.replicate NPROC none
  table := List.length_replicate
  pipes := false
  event := false
  answer := false

/-- The second byte goes behind the end of the process. -/
theorem read_negative_outside : ∃ s ∈ Call.read.stores negative, ∃ a ∈ s.addrs, ¬ a < negative.sz := by
  by_contra none
  have inside : AllInside negative ((sysRead negative).getD []) := fun s stored a member => by
    by_contra beyond
    exact none ⟨s, stored, a, member, beyond⟩
  have := sysRead_allInside_iff.mp inside (.inode true 2 0) 0xffffffff 4096 (by rfl) (by rfl) (by rfl)
  revert this
  decide

end SirpairOs.Syscall
