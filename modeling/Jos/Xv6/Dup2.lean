import Jos.Lib.Fallible
import Jos.Lib.RefCount
import Mathlib.Data.BitVec
import Mathlib.Data.Fintype.Prod

/-!
# Descriptor tables of xv6

The process and file tables of `xv6-public` (`proc.h`, `file.c`), the argument fetches of `syscall.c`, and
`sys_dup2` of `sysfile.c`. An open file is shared by all descriptors that name it, over all processes, and its
`ref` is the number of those descriptors.

`sys_dup2` checks its second argument with `new_fd > NOFILE`, so that `NOFILE` itself passes. `ofile[NOFILE]` is
the next word of `struct proc`, `cwd`, and what it points to is an inode: the model keeps enough of the layout
of `struct file` and `struct inode` to say what the code does there.
-/

namespace Jos.Xv6

/-- Maximum number of processes. -/
abbrev NPROC : Nat := 64

/-- Open files per process. -/
abbrev NOFILE : Nat := 16

/-- Open files per system. -/
abbrev NFILE : Nat := 100

/-- Maximum number of active i-nodes. -/
abbrev NINODE : Nat := 50

/-! The values of `type` in `struct file`. They are words here, because a word of an inode can be read as
one. -/

def FD_NONE : BitVec 32 := 0
def FD_PIPE : BitVec 32 := 1
def FD_INODE : BitVec 32 := 2

/-- `struct file`. -/
structure File where
  type : BitVec 32
  ref : Int
  readable : BitVec 8
  writable : BitVec 8
  pipe : BitVec 32
  ip : BitVec 32
  off : BitVec 32
deriving DecidableEq

/-- The words of `struct inode` that lie where `struct file` has its fields. -/
structure Inode where
  dev : BitVec 32
  inum : BitVec 32
  ref : BitVec 32
  locked : BitVec 32
  lkLocked : BitVec 32
  lkName : BitVec 32
deriving DecidableEq

/-- An inode read as a file. -/
def Inode.asFile (ip : Inode) : File where
  type := ip.dev
  ref := ip.inum.toInt
  readable := ip.ref.extractLsb' 0 8
  writable := ip.ref.extractLsb' 8 8
  pipe := ip.locked
  ip := ip.lkLocked
  off := ip.lkName

/-- What a pointer in a process can point to. -/
inductive Ptr
  | file (f : Fin NFILE)
  | inode (ip : Fin NINODE)
deriving DecidableEq

/-- `struct proc`; `esp` is the user's stack pointer, saved in `tf`. -/
structure Proc where
  sz : BitVec 32
  pgdir : BitVec 32
  kstack : BitVec 32
  state : BitVec 32
  pid : BitVec 32
  parent : BitVec 32
  tf : BitVec 32
  esp : BitVec 32
  context : BitVec 32
  chan : BitVec 32
  killed : BitVec 32
  ofile : Fin NOFILE → Option (Fin NFILE)
  cwd : Option Ptr
  name : Fin 16 → BitVec 8

/-- The calls into the pipe and inode layers that closing a file makes. -/
inductive CloseCall
  | pipeclose (pipe : BitVec 32) (writable : BitVec 8)
  | iput (ip : BitVec 32)
deriving DecidableEq

/-- The part of the kernel that descriptors are about. `mem` is the memory of the current process, read by
words, and `calls` the closing calls made so far. -/
structure State where
  proc : Fin NPROC → Proc
  myproc : Fin NPROC
  file : Fin NFILE → File
  inode : Fin NINODE → Inode
  mem : BitVec 32 → BitVec 32
  calls : List CloseCall

namespace State

variable (k : State)

/-- `*myproc()`. -/
def cur : Proc := k.proc k.myproc

/-- Fetch the int at `addr` from the current process. -/
def fetchint (addr : BitVec 32) : Option Int :=
  if addr ≥ k.cur.sz ∨ addr + 4 > k.cur.sz then none else some (k.mem addr).toInt

/-- Fetch the `n`th 32-bit system call argument. -/
def argint (n : Nat) : Option Int := k.fetchint (k.cur.esp + 4 + BitVec.ofNat 32 (4 * n))

/-- Fetch the `n`th argument as a file descriptor, with its file. -/
def argfd (n : Nat) : Option (Fin NOFILE × Fin NFILE) :=
  match k.argint n with
  | none => none
  | some fd =>
    if h : 0 ≤ fd ∧ fd < NOFILE then
      let fd : Fin NOFILE := ⟨fd.toNat, by omega⟩
      (k.cur.ofile fd).map fun f => (fd, f)
    else none

/-- The `struct file` at a pointer. -/
def fileAt : Ptr → File
  | .file f => k.file f
  | .inode ip => (k.inode ip).asFile

/-- Write the `type` and `ref` words of the `struct file` at a pointer. -/
def putFile (type : BitVec 32) (ref : Int) : Ptr → State
  | .file f =>
    let x : File := { k.file f with type := type, ref := ref }
    { k with file := Function.update k.file f x }
  | .inode ip =>
    let x : Inode := { k.inode ip with dev := type, inum := BitVec.ofInt 32 ref }
    { k with inode := Function.update k.inode ip x }

/-- Increment the reference count of a file. -/
def filedup (f : Ptr) : Except String State :=
  if (k.fileAt f).ref < 1 then throw "filedup"
  else pure (k.putFile (k.fileAt f).type ((k.fileAt f).ref + 1) f)

/-- The calls that closing makes, by the type of the file. -/
def closeCalls (ff : File) : List CloseCall :=
  if ff.type = FD_PIPE then [.pipeclose ff.pipe ff.writable]
  else if ff.type = FD_INODE then [.iput ff.ip]
  else []

/-- Decrement the reference count of a file and close it when it reaches 0. -/
def fileclose (f : Ptr) : Except String State :=
  if (k.fileAt f).ref < 1 then throw "fileclose"
  else if (k.fileAt f).ref - 1 > 0 then pure (k.putFile (k.fileAt f).type ((k.fileAt f).ref - 1) f)
  else
    let ff := k.fileAt f
    let k := k.putFile FD_NONE 0 f
    pure { k with calls := k.calls ++ closeCalls ff }

/-- `if(f2) fileclose(f2)`. -/
def filecloseIf : Option Ptr → Except String State
  | some f2 => k.fileclose f2
  | none => pure k

/-- `ofile[fd]` of the current process, with `cwd` behind the end of the array. -/
def ofileAt (fd : Nat) : Option Ptr :=
  if h : fd < NOFILE then (k.cur.ofile ⟨fd, h⟩).map .file else k.cur.cwd

/-- `myproc()->ofile[fd] = f`. -/
def setOfile (fd : Nat) (f : Fin NFILE) : State :=
  let p : Proc :=
    if h : fd < NOFILE then { k.cur with ofile := Function.update k.cur.ofile ⟨fd, h⟩ (some f) }
    else { k.cur with cwd := some (.file f) }
  { k with proc := Function.update k.proc k.myproc p }

/-- `sys_dup2`, with the result it returns to the user. -/
def sysDup2 : Except String (Int × State) :=
  match k.argfd 0, k.argint 1 with
  | some (oldFd, f1), some newFd =>
    if newFd < 0 ∨ newFd > NOFILE then pure (-1, k)
    else if newFd ≠ oldFd.val then do
      let k ← k.filecloseIf (k.ofileAt newFd.toNat)
      let k := k.setOfile newFd.toNat f1
      let k ← k.filedup (.file f1)
      pure (newFd, k)
    else pure (newFd, k)
  | _, _ => pure (-1, k)

/-! ## What the call is for -/

/-- The file a descriptor of a process names. -/
def target (q : Fin NPROC × Fin NOFILE) : Option (Fin NFILE) := (k.proc q.1).ofile q.2

/-- The number of descriptors, over all processes, that name a file. -/
def slots (f : Fin NFILE) : Nat := refCount Finset.univ k.target f

/-- Every file's reference count is the number of descriptors that name it. -/
def RefsOk : Prop := ∀ f, (k.file f).ref = k.slots f

/-- Slot `new` is the last that names the file in it, and the call gives it up. -/
def LastSlot (old new : Fin NOFILE) (f : Fin NFILE) : Prop := old ≠ new ∧ k.slots f = 1

instance (old new : Fin NOFILE) (f : Fin NFILE) : Decidable (k.LastSlot old new f) :=
  inferInstanceAs (Decidable (_ ∧ _))

/-- What a successful call leaves: slot `new` names the file of slot `old`, counts are right, the file that was
in slot `new` is closed exactly when that was its last slot, and nothing else of any process changes. -/
structure Duplicated (k k' : State) (old new : Fin NOFILE) : Prop where
  slot : k'.cur.ofile new = k'.cur.ofile old
  refs : k'.RefsOk
  closed : ∀ f, k.cur.ofile new = some f → ((k'.file f).ref = 0 ↔ k.LastSlot old new f)
  calls : k'.calls = k.calls ++ ((k.cur.ofile new).toList.flatMap fun f =>
    if k.LastSlot old new f then closeCalls (k.file f) else [])
  proc : ∃ f, k.cur.ofile old = some f ∧ k'.proc = Function.update k.proc k.myproc
    { k.cur with ofile := Function.update k.cur.ofile new (some f) }
  myproc : k'.myproc = k.myproc
  inode : k'.inode = k.inode
  mem : k'.mem = k.mem

/-- The call fails and changes nothing, or duplicates the descriptor. -/
def Dup2Ok (k : State) : Prop :=
  ∃ r k', k.sysDup2 = .ok (r, k') ∧ ((r = -1 ∧ k' = k) ∨
    ∃ old new : Fin NOFILE, k.argint 0 = some (old.val : Int) ∧ k.argint 1 = some (new.val : Int) ∧
      r = new.val ∧ Duplicated k k' old new)

/-! ## Closing and duplicating -/

variable {k} {f f1 : Fin NFILE} {old new : Fin NOFILE}

/-- The file after one of its descriptors is gone. -/
def closedFile (x : File) : File :=
  if x.ref = 1 then { x with type := FD_NONE, ref := 0 } else { x with ref := x.ref - 1 }

/-- Closing a file that is referenced: the count goes down, and the last reference closes it. -/
theorem fileclose_file (h : 1 ≤ (k.file f).ref) :
    k.fileclose (.file f) = .ok { k with
      file := Function.update k.file f (closedFile (k.file f))
      calls := k.calls ++ if (k.file f).ref = 1 then closeCalls (k.file f) else [] } := by
  have hpanic : ¬ (k.file f).ref < 1 := by omega
  have hat : k.fileAt (.file f) = k.file f := rfl
  rw [fileclose, hat, if_neg hpanic, closedFile]
  by_cases hone : (k.file f).ref = 1
  · have hlast : ¬ (k.file f).ref - 1 > 0 := by omega
    rw [if_neg hlast, if_pos hone, if_pos hone]
    rfl
  · have hmore : (k.file f).ref - 1 > 0 := by omega
    rw [if_pos hmore, if_neg hone, if_neg hone, List.append_nil]
    rfl

/-- Duplicating a file that is referenced. -/
theorem filedup_file (h : 1 ≤ (k.file f).ref) :
    k.filedup (.file f) = .ok { k with
      file := Function.update k.file f { k.file f with ref := (k.file f).ref + 1 } } := by
  have hpanic : ¬ (k.file f).ref < 1 := by omega
  have hat : k.fileAt (.file f) = k.file f := rfl
  rw [filedup, hat, if_neg hpanic]
  rfl

/-- A file that a descriptor names is referenced. -/
theorem RefsOk.ref_pos (h : k.RefsOk) (ho : k.cur.ofile old = some f) : 1 ≤ (k.file f).ref := by
  have htarget : k.target (k.myproc, old) = some f := ho
  have hpos := refCount_pos (Finset.mem_univ _) htarget
  rw [h f, slots]
  omega

/-- A file that two descriptors name is referenced twice. -/
theorem RefsOk.two_le_ref (h : k.RefsOk) (hne : old ≠ new) (ho : k.cur.ofile old = some f)
    (hn : k.cur.ofile new = some f) : 2 ≤ (k.file f).ref := by
  have hij : (k.myproc, old) ≠ (k.myproc, new) := fun he => hne (Prod.mk.inj he).2
  have htold : k.target (k.myproc, old) = some f := ho
  have htnew : k.target (k.myproc, new) = some f := hn
  have htwo := two_le_refCount (Finset.mem_univ _) (Finset.mem_univ _) hij htold htnew
  rw [h f, slots]
  omega

/-- Storing a file in a descriptor changes the slot counts of what it named and of what it names now. -/
theorem slots_setOfile (k : State) (new : Fin NOFILE) (f1 f : Fin NFILE) :
    (k.setOfile new.val f1).slots f + (if k.cur.ofile new = some f then 1 else 0) =
      k.slots f + if f1 = f then 1 else 0 := by
  have htarget : (k.setOfile new.val f1).target = Function.update k.target (k.myproc, new) (some f1) := by
    funext ⟨p, d⟩
    by_cases hp : p = k.myproc
    · subst hp
      by_cases hd : d = new
      · subst hd
        simp [setOfile, target]
      · rw [Function.update_of_ne (fun he => hd (Prod.mk.inj he).2)]
        simp [setOfile, target, hd, cur]
    · rw [Function.update_of_ne (fun he => hp (Prod.mk.inj he).1)]
      simp [setOfile, target, hp]
  have hcount := refCount_update (f := k.target) (a := f) (Finset.mem_univ (k.myproc, new)) (some f1)
  rw [← htarget] at hcount
  simp only [Option.some.injEq] at hcount
  exact hcount

/-! ## The call -/

/-- The file table after the file of one descriptor is closed. -/
def closeIn (k : State) : Option (Fin NFILE) → State
  | none => k
  | some f => { k with
      file := Function.update k.file f (closedFile (k.file f))
      calls := k.calls ++ if (k.file f).ref = 1 then closeCalls (k.file f) else [] }

/-- The state a successful call leaves, when the descriptors differ. -/
def dupIn (k : State) (new : Fin NOFILE) (f1 : Fin NFILE) : State :=
  let k := (k.closeIn (k.cur.ofile new)).setOfile new.val f1
  { k with file := Function.update k.file f1 { k.file f1 with ref := (k.file f1).ref + 1 } }

theorem closeIn_ref (k : State) (o : Option (Fin NFILE)) (f : Fin NFILE) :
    ((k.closeIn o).file f).ref = (k.file f).ref - if o = some f then 1 else 0 := by
  cases o with
  | none => simp [closeIn]
  | some b =>
    by_cases hf : f = b
    · subst hf
      simp only [closeIn, Function.update_self, if_true, closedFile]
      by_cases hone : (k.file f).ref = 1
      · rw [if_pos hone, hone]
        rfl
      · rw [if_neg hone]
    · simp [closeIn, hf, Ne.symm hf]

theorem dupIn_ref (k : State) (new : Fin NOFILE) (f1 f : Fin NFILE) :
    ((k.dupIn new f1).file f).ref =
      (k.file f).ref - (if k.cur.ofile new = some f then 1 else 0) + if f1 = f then 1 else 0 := by
  have hset : ((k.closeIn (k.cur.ofile new)).setOfile new.val f1).file = (k.closeIn (k.cur.ofile new)).file :=
    rfl
  by_cases hf : f = f1
  · subst hf
    simp only [dupIn, Function.update_self, if_true, hset, closeIn_ref]
  · simp only [dupIn, Function.update_of_ne hf, hset, closeIn_ref, Ne.symm hf, if_false, add_zero]

/-- Closing through the pointer in a descriptor. -/
theorem close_ofileAt (h : k.RefsOk) (new : Fin NOFILE) :
    k.filecloseIf (k.ofileAt new.val) = .ok (k.closeIn (k.cur.ofile new)) := by
  have hat : k.ofileAt new.val = (k.cur.ofile new).map .file := dif_pos new.isLt
  rw [hat]
  cases hn : k.cur.ofile new with
  | none => rfl
  | some f => exact fileclose_file (h.ref_pos hn)

/-- Two descriptors of the process: the call closes what the new one named and makes it name the file of the
old one. -/
theorem sysDup2_eq (h : k.RefsOk) (hne : old ≠ new) (ho : k.argfd 0 = some (old, f1))
    (hf : k.cur.ofile old = some f1) (hn : k.argint 1 = some (new.val : Int)) :
    k.sysDup2 = .ok ((new.val : Int), k.dupIn new f1) := by
  have hrange : ¬ ((new.val : Int) < 0 ∨ (new.val : Int) > (NOFILE : Nat)) := by
    have := new.isLt
    omega
  have hdiff : (new.val : Int) ≠ (old.val : Int) := fun he => hne (Fin.ext (by omega))
  -- closing may take one reference of the file that is duplicated, but not its last
  have href : 1 ≤ (((k.closeIn (k.cur.ofile new)).setOfile new.val f1).file f1).ref := by
    have hset : ((k.closeIn (k.cur.ofile new)).setOfile new.val f1).file =
        (k.closeIn (k.cur.ofile new)).file := rfl
    rw [hset, closeIn_ref]
    by_cases hsame : k.cur.ofile new = some f1
    · have htwo := h.two_le_ref hne hf hsame
      rw [if_pos hsame]
      omega
    · have hone := h.ref_pos hf
      rw [if_neg hsame]
      omega
  simp only [sysDup2, ho, hn]
  rw [if_neg hrange, if_pos hdiff, Int.toNat_natCast, close_ofileAt h new, Except.ok_bind,
    filedup_file href, Except.ok_bind]
  rfl

section Fields

variable (k) (o : Option (Fin NFILE))

@[simp] theorem closeIn_proc : (k.closeIn o).proc = k.proc := by cases o <;> rfl

@[simp] theorem closeIn_myproc : (k.closeIn o).myproc = k.myproc := by cases o <;> rfl

@[simp] theorem closeIn_inode : (k.closeIn o).inode = k.inode := by cases o <;> rfl

@[simp] theorem closeIn_mem : (k.closeIn o).mem = k.mem := by cases o <;> rfl

theorem setOfile_proc (new : Fin NOFILE) (f1 : Fin NFILE) :
    (k.setOfile new.val f1).proc = Function.update k.proc k.myproc
      { k.cur with ofile := Function.update k.cur.ofile new (some f1) } := by
  simp only [setOfile]
  rw [dif_pos new.isLt]

theorem dupIn_proc (new : Fin NOFILE) (f1 : Fin NFILE) :
    (k.dupIn new f1).proc = (k.setOfile new.val f1).proc := by
  simp only [dupIn, setOfile, closeIn_proc, closeIn_myproc, cur]

end Fields

/-- The counts of the two files move with their slots. -/
theorem refsOk_dupIn (h : k.RefsOk) (new : Fin NOFILE) (f1 : Fin NFILE) : (k.dupIn new f1).RefsOk := by
  intro f
  have hslots : (k.dupIn new f1).slots f = (k.setOfile new.val f1).slots f := by
    have htarget : (k.dupIn new f1).target = (k.setOfile new.val f1).target := by
      funext q
      rw [target, target, dupIn_proc]
    rw [slots, slots, htarget]
  have hcount := slots_setOfile k new f1 f
  rw [dupIn_ref, hslots, h f]
  by_cases hn : k.cur.ofile new = some f <;> by_cases hf : f1 = f <;>
    simp only [hn, hf, if_true, if_false] at hcount ⊢ <;> omega

/-- The file in the new slot loses its last reference exactly when that was its last slot. -/
theorem dupIn_ref_eq_zero_iff (h : k.RefsOk) (hne : old ≠ new) (ho : k.cur.ofile old = some f1)
    (hn : k.cur.ofile new = some f) : ((k.dupIn new f1).file f).ref = 0 ↔ k.LastSlot old new f := by
  rw [dupIn_ref, if_pos hn, LastSlot]
  by_cases hsame : f1 = f
  · subst hsame
    have htwo := h.two_le_ref hne ho hn
    have href := h f1
    rw [if_pos rfl]
    constructor
    · intro h0
      omega
    · intro hlast
      omega
  · have href := h f
    rw [if_neg hsame]
    constructor
    · intro h0
      exact ⟨hne, by omega⟩
    · intro hlast
      have := hlast.2
      omega

/-- The state after the call is the one the call is for. -/
theorem duplicated_dupIn (h : k.RefsOk) (hne : old ≠ new) (hf : k.cur.ofile old = some f1) :
    Duplicated k (k.dupIn new f1) old new where
  slot := by
    have hofile : (k.dupIn new f1).cur.ofile = Function.update k.cur.ofile new (some f1) := by
      rw [cur, dupIn_proc, setOfile_proc, show (k.dupIn new f1).myproc = k.myproc from closeIn_myproc ..,
        Function.update_self]
    rw [hofile, Function.update_self, Function.update_of_ne hne, hf]
  refs := refsOk_dupIn h new f1
  closed := fun f hn => dupIn_ref_eq_zero_iff h hne hf hn
  calls := by
    have hcalls : (k.dupIn new f1).calls = (k.closeIn (k.cur.ofile new)).calls := rfl
    rw [hcalls]
    cases hn : k.cur.ofile new with
    | none => exact (List.append_nil _).symm
    | some f =>
      have hlast : (k.file f).ref = 1 ↔ k.LastSlot old new f := by
        rw [h f, LastSlot]
        constructor
        · intro hone
          exact ⟨hne, by omega⟩
        · intro hone
          have := hone.2
          omega
      simp only [closeIn, Option.toList_some, List.flatMap_singleton, hlast]
  proc := ⟨f1, hf, by rw [dupIn_proc, setOfile_proc]⟩
  myproc := closeIn_myproc ..
  inode := closeIn_inode ..
  mem := closeIn_mem ..

/-- With one descriptor for both arguments nothing changes. -/
theorem duplicated_self (h : k.RefsOk) (hf : k.cur.ofile old = some f1) : Duplicated k k old old where
  slot := rfl
  refs := h
  closed := by
    intro f hn
    have hpos := h.ref_pos hn
    constructor
    · intro h0
      omega
    · intro hlast
      exact absurd rfl hlast.1
  calls := by
    have hkeep : ∀ f, (if k.LastSlot old old f then closeCalls (k.file f) else []) = [] := by
      intro f
      exact if_neg fun hlast => hlast.1 rfl
    rw [hf, Option.toList_some, List.flatMap_singleton, hkeep, List.append_nil]
  proc := ⟨f1, hf, by rw [← hf, Function.update_eq_self]; exact (Function.update_eq_self ..).symm⟩
  myproc := rfl
  inode := rfl
  mem := rfl

theorem argfd_eq_some (h : k.argfd 0 = some (old, f1)) :
    k.argint 0 = some (old.val : Int) ∧ k.cur.ofile old = some f1 := by
  rw [argfd] at h
  cases ha : k.argint 0 with
  | none => simp [ha] at h
  | some fd =>
    simp only [ha] at h
    split at h
    · rename_i hrange
      obtain ⟨f, hf, hpair⟩ := Option.map_eq_some_iff.mp h
      obtain ⟨rfl, rfl⟩ := Prod.mk.inj hpair
      refine ⟨?_, hf⟩
      rw [Int.toNat_of_nonneg hrange.1]
    · exact absurd h (by simp)

/-- Where the first argument is not an open descriptor, or the second is no descriptor at all, the call fails
and changes nothing. -/
theorem sysDup2_fails (h : k.argfd 0 = none ∨ k.argint 1 = none ∨
    ∃ fd, k.argint 1 = some fd ∧ (fd < 0 ∨ fd > (NOFILE : Nat))) : k.sysDup2 = .ok (-1, k) := by
  rw [sysDup2]
  obtain h | h | ⟨fd, h, hrange⟩ := h
  · rw [h]
    rfl
  · rw [h]
    cases k.argfd 0 <;> rfl
  · rw [h]
    cases k.argfd 0 with
    | none => rfl
    | some p => exact if_pos hrange

/-- With `NOFILE` for the second argument the call does not fail cleanly: it panics, or returns `NOFILE`. -/
theorem sysDup2_nofile (ho : k.argfd 0 = some (old, f1)) (hn : k.argint 1 = some (NOFILE : Int))
    {r : Int} {k' : State} (h : k.sysDup2 = .ok (r, k')) : r = (NOFILE : Int) := by
  have hrange : ¬ ((NOFILE : Int) < 0 ∨ (NOFILE : Int) > (NOFILE : Nat)) := by decide
  have hdiff : (NOFILE : Int) ≠ (old.val : Int) := by
    have := old.isLt
    omega
  simp only [sysDup2, ho, hn] at h
  rw [if_neg hrange, if_pos hdiff] at h
  obtain ⟨k₁, -, h⟩ := Except.bind_eq_ok.mp h
  obtain ⟨k₂, -, h⟩ := Except.bind_eq_ok.mp h
  exact (Prod.mk.inj (Except.ok.inj h)).1.symm

/-- With one descriptor for both arguments the call returns it. -/
theorem sysDup2_self (ho : k.argfd 0 = some (old, f1)) (hn : k.argint 1 = some (old.val : Int)) :
    k.sysDup2 = .ok ((old.val : Int), k) := by
  have hok : ¬ ((old.val : Int) < 0 ∨ (old.val : Int) > (NOFILE : Nat)) := by
    have := old.isLt
    omega
  simp only [sysDup2, ho, hn]
  rw [if_neg hok, if_neg (not_not.mpr rfl)]
  rfl

/-- The call does not meet its purpose on an open descriptor and `NOFILE`. -/
theorem not_dup2Ok_nofile (ho : k.argfd 0 = some (old, f1)) (hn : k.argint 1 = some (NOFILE : Int)) :
    ¬ k.Dup2Ok := by
  rintro ⟨r, k', hrun, hres⟩
  have hr := sysDup2_nofile ho hn hrun
  obtain ⟨hr', -⟩ | ⟨old', new, -, hn', -, -⟩ := hres
  · rw [hr'] at hr
    exact absurd hr (by decide)
  · rw [hn, Option.some.injEq] at hn'
    have := new.isLt
    omega

/-- The call meets its purpose in every state with right counts, except where the first argument is an open
descriptor and the second is `NOFILE`: then it stores a file in `cwd`. -/
theorem sysDup2_ok_iff (k : State) (h : k.RefsOk) :
    k.Dup2Ok ↔ ¬ ((k.argfd 0).isSome ∧ k.argint 1 = some (NOFILE : Int)) := by
  constructor
  · rintro hok ⟨ho, hn⟩
    obtain ⟨⟨old, f1⟩, ho⟩ := Option.isSome_iff_exists.mp ho
    exact not_dup2Ok_nofile ho hn hok
  · intro hcond
    by_cases hfail : k.argfd 0 = none ∨ k.argint 1 = none ∨
        ∃ fd, k.argint 1 = some fd ∧ (fd < 0 ∨ fd > (NOFILE : Nat))
    · exact ⟨-1, k, sysDup2_fails hfail, Or.inl ⟨rfl, rfl⟩⟩
    · rw [not_or, not_or] at hfail
      obtain ⟨ho, hn, hrange⟩ := hfail
      obtain ⟨⟨old, f1⟩, ho⟩ := Option.ne_none_iff_exists'.mp ho
      obtain ⟨fd, hn⟩ := Option.ne_none_iff_exists'.mp hn
      have hin : ¬ (fd < 0 ∨ fd > (NOFILE : Nat)) := fun hout => hrange ⟨fd, hn, hout⟩
      have hne : fd ≠ (NOFILE : Int) := by
        rintro rfl
        exact hcond ⟨by rw [ho]; rfl, hn⟩
      -- what is left of the range is a descriptor
      obtain ⟨new, rfl⟩ : ∃ new : Fin NOFILE, fd = (new.val : Int) :=
        ⟨⟨fd.toNat, by omega⟩, by rw [Int.toNat_of_nonneg (by omega)]⟩
      obtain ⟨harg, hf⟩ := argfd_eq_some ho
      by_cases hsame : old = new
      · subst hsame
        exact ⟨_, k, sysDup2_self ho hn, Or.inr ⟨old, old, harg, hn, rfl, duplicated_self h hf⟩⟩
      · exact ⟨_, k.dupIn new f1, sysDup2_eq h hsame ho hf hn,
          Or.inr ⟨old, new, harg, hn, rfl, duplicated_dupIn h hsame hf⟩⟩

/-! ### One process with one open file -/

/-- A process with file 0 at descriptor 0 and a directory to work in; its second argument is `fd`. -/
def oneOpen (fd : BitVec 32) : State where
  proc p :=
    { sz := 0x2000, pgdir := 0, kstack := 0, state := 4, pid := 1, parent := 0, tf := 0, esp := 0x1000,
      context := 0, chan := 0, killed := 0
      ofile := fun d => if (p, d) = (0, 0) then some 0 else none
      cwd := some (.inode 0)
      name := fun _ => 0 }
  myproc := 0
  file f :=
    { type := FD_INODE, ref := if f = 0 then 1 else 0, readable := 1, writable := 0, pipe := 0, ip := 0
      off := 0 }
  inode _ := { dev := 1, inum := 5, ref := 1, locked := 0, lkLocked := 0, lkName := 0 }
  mem a := if a = 0x1004 then 0 else if a = 0x1008 then fd else 0
  calls := []

theorem refsOk_oneOpen (fd : BitVec 32) : (oneOpen fd).RefsOk := by
  intro f
  have htarget : (oneOpen fd).target = Function.update (fun _ => none) (0, 0) (some 0) := by
    funext ⟨p, d⟩
    by_cases hpd : (p, d) = (0, 0)
    · rw [hpd, Function.update_self]
      rfl
    · rw [Function.update_of_ne hpd]
      exact if_neg hpd
  have hcount := refCount_update (f := fun _ : Fin NPROC × Fin NOFILE => none) (a := f)
    (Finset.mem_univ (0, 0)) (some 0)
  have hnone : refCount Finset.univ (fun _ : Fin NPROC × Fin NOFILE => none) f = 0 :=
    refCount_eq_zero.mpr fun _ _ => by simp
  rw [hnone] at hcount
  rw [slots, htarget]
  have hfile : ((oneOpen fd).file f).ref = if f = 0 then 1 else 0 := rfl
  rw [hfile]
  by_cases hf : f = 0
  · subst hf
    simp only [if_true, if_false, reduceCtorEq] at hcount ⊢
    omega
  · simp only [Ne.symm hf, Option.some.injEq, if_false, reduceCtorEq] at hcount
    rw [if_neg hf]
    omega

/-- Descriptor 0 is duplicated to descriptor 3. -/
theorem sysDup2_ok_three : (oneOpen 3).Dup2Ok :=
  (sysDup2_ok_iff (oneOpen 3) (refsOk_oneOpen 3)).mpr (by decide)

/-- Descriptor 0 is duplicated to `NOFILE`: the call returns 16, and the current directory is the file now. -/
theorem sysDup2_nofile_overwrites_cwd :
    (oneOpen 16).RefsOk ∧ ¬ (oneOpen 16).Dup2Ok ∧
      ∃ k', (oneOpen 16).sysDup2 = .ok (16, k') ∧ k'.cur.cwd = some (.file 0) := by
  refine ⟨refsOk_oneOpen 16, ?_, ?_⟩
  · have ho : (oneOpen 16).argfd 0 = some (0, 0) := by decide
    have hn : (oneOpen 16).argint 1 = some (NOFILE : Int) := by decide
    exact not_dup2Ok_nofile ho hn
  · exact ⟨_, rfl, rfl⟩

end State

end Jos.Xv6
