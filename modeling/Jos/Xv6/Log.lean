import Jos.Lib.Transactions
import Jos.Xv6.Bcache
import Mathlib.Data.Fintype.Card

/-!
# The log of xv6 (`log.c`)

File system calls bracket what they do by `begin_op` and `end_op`, and pass each buffer that they have modified to
`log_write`. The last `end_op` commits for all: it copies the blocks to the log, writes the header, copies the blocks
home and erases the header. After a crash `initlog` does the second half again if there is a header.

Any number of processes are at any points of this. A step of a process is what it does between two points at which
others come in between or the machine can stop: getting a buffer, locking it and reading it, writing it to disk,
giving it back. A crash leaves the disk and nothing else.
-/

namespace Jos.Xv6

/-- What the superblock says about the log: the blocks from `logstart` on, `nlog` of them. -/
structure Superblock where
  nlog : Nat
  logstart : Nat
  nlog_pos : 0 < nlog
  fits : logstart + nlog ≤ FSSIZE

/-- The superblock that `mkfs` writes. -/
def mkfsSb : Superblock := ⟨LOGSIZE, 2, by decide, by decide⟩

/-- The blocks that do not belong to the log. -/
def Superblock.IsData (sb : Superblock) (b : Nat) : Prop :=
  b < FSSIZE ∧ (b < sb.logstart ∨ sb.logstart + sb.nlog ≤ b)

instance (sb : Superblock) (b : Nat) : Decidable (sb.IsData b) := inferInstanceAs (Decidable (_ ∧ _))

/-- `struct log`; its `start` and `size` are those of the superblock, and `lh` is the header with its first `n`
block numbers. -/
structure Log where
  outstanding : Nat
  committing : Bool
  lh : List Nat

/-! ## The header -/

/-- A word of a block. -/
def word (x : Block) (k : Nat) : BitVec 32 := if h : k < 128 then x ⟨k, h⟩ else 0#32

/-- The header in a block, as `read_head` reads it. -/
def readHead (x : Block) : List Nat := (List.range (word x 0).toInt.toNat).map fun i => (word x (i + 1)).toNat

/-- A block after `write_head` has written the header into it. -/
def writeHead (lh : List Nat) (x : Block) : Block := fun k =>
  if k.val = 0 then BitVec.ofNat 32 lh.length else (lh[k.val - 1]?.map (BitVec.ofNat 32)).getD (x k)

/-! ## Points -/

/-- Where a process is. The numbers are `tail`, and the buffers those that it has locked there. -/
inductive LogPc
  /-- Outside of the log. -/
  | user
  /-- In `write_log`, before `bread` and before the copy. -/
  | writeLog (tail : Nat)
  | writeLogFrom (tail : Nat) (dst : Fin NBUF)
  | writeLogCopy (tail : Nat) (dst src : Fin NBUF)
  /-- In the first `write_head`. -/
  | writeHead
  | writeHeadCopy (buf : Fin NBUF)
  /-- In `install_trans`. -/
  | install (tail : Nat)
  | installDst (tail : Nat) (lbuf : Fin NBUF)
  | installCopy (tail : Nat) (lbuf dbuf : Fin NBUF)
  /-- In the second `write_head`. -/
  | clearHead
  | clearHeadCopy (buf : Fin NBUF)
  /-- About to return from `commit` or `recover_from_log`. -/
  | done
  /-- In `read_head`. -/
  | readHead
  | readHeadCopy (buf : Fin NBUF)
  /-- Giving buffers back. -/
  | brelse (bufs : List (Fin NBUF)) (k : LogPc)

/-- The block that a process asks `bread` for. -/
def Asks (sb : Superblock) (lh : List Nat) : LogPc → Nat → Prop
  | .user, b => sb.IsData b
  | .writeLog tail, b | .install tail, b => tail < lh.length ∧ b = sb.logstart + tail + 1
  | .writeLogFrom tail _, b | .installDst tail _, b => lh[tail]? = some b
  | .writeHead, b | .clearHead, b | .readHead, b => b = sb.logstart
  | _, _ => False

/-- Where it is when `bread` has returned buffer `i`. -/
def LogPc.next (i : Fin NBUF) : LogPc → LogPc
  | .writeLog tail => .writeLogFrom tail i
  | .writeLogFrom tail dst => .writeLogCopy tail dst i
  | .writeHead => .writeHeadCopy i
  | .install tail => .installDst tail i
  | .installDst tail lbuf => .installCopy tail lbuf i
  | .clearHead => .clearHeadCopy i
  | .readHead => .readHeadCopy i
  | pc => pc

/-! ## The system -/

/-- The disk, the memory, and the processes: where they are, the buffers they have got from `bget` and wait for, and
the blocks that their file system calls in progress have logged. `up` says that `initlog` has returned. -/
structure FsState where
  disk : Nat → Block
  bcache : Bcache
  log : Log
  pc : Fin NPROC → LogPc
  got : Fin NPROC → Option (Fin NBUF)
  op : Fin NPROC → Option (Finset Nat)
  up : Bool

/-- What a run shows: file system calls, reads and writes of blocks in them, and crashes. -/
abbrev FsEvent := Txn.Event (Fin NPROC) Nat Block

namespace FsState

/-- What is left after a crash. The first process is about to recover the log, and the others do not run before. -/
def restart (disk : Nat → Block) : FsState where
  disk := disk
  bcache := binit
  log := ⟨0, false, []⟩
  pc := Function.update (fun _ => .user) ⟨0, by decide⟩ .readHead
  got _ := none
  op _ := none
  up := false

def goto (σ : FsState) (p : Fin NPROC) (pc : LogPc) : FsState := { σ with pc := Function.update σ.pc p pc }

/-- A buffer changes, and the disk with it. -/
def setBuf (σ : FsState) (i : Fin NBUF) (x : (Nat → Block) × Buf) : FsState :=
  { σ with disk := x.1, bcache := σ.bcache.set i x.2 }

/-- Process `p` executes code outside of the log. -/
structure Runs (σ : FsState) (p : Fin NPROC) : Prop where
  pc : σ.pc p = .user
  got : σ.got p = none
  up : σ.up = true

/-- `log_write` panics: "too big a transaction". -/
def TooBig (sb : Superblock) (σ : FsState) : Prop := LOGSIZE ≤ σ.log.lh.length ∨ sb.nlog - 1 ≤ σ.log.lh.length

instance (sb : Superblock) (σ : FsState) : Decidable (σ.TooBig sb) := inferInstanceAs (Decidable (_ ∨ _))

/-- `begin_op` does not wait: no commit, and the log has room for one more call. -/
structure Admits (σ : FsState) : Prop where
  committing : σ.log.committing = false
  room : σ.log.lh.length + (σ.log.outstanding + 1) * MAXOPBLOCKS ≤ LOGSIZE

/-- `begin_op`. -/
def beginOp (σ : FsState) (p : Fin NPROC) : FsState :=
  { σ with
    log := { σ.log with outstanding := σ.log.outstanding + 1 }
    op := Function.update σ.op p (some ∅) }

/-- Process `p` stores `d` to a buffer that it has locked and passes it to `log_write`. A block that the log has
already is not added again. -/
def logWrite (σ : FsState) (p : Fin NPROC) (bs : Finset Nat) (i : Fin NBUF) (d : Block) : FsState :=
  let b := (σ.bcache.buf i).blockno
  { σ with
    bcache := σ.bcache.set i { σ.bcache.buf i with data := d, dirty := true }
    log := { σ.log with lh := if b ∈ σ.log.lh then σ.log.lh else σ.log.lh ++ [b] }
    op := Function.update σ.op p (some (insert b bs)) }

/-- `end_op`, as far as `commit` or to its end. -/
def endOp (σ : FsState) (p : Fin NPROC) : FsState :=
  let τ := { σ with
    log := { σ.log with outstanding := σ.log.outstanding - 1 }
    op := Function.update σ.op p none }
  if σ.log.outstanding - 1 = 0 then
    { τ with log := { τ.log with committing := true } }.goto p (if σ.log.lh = [] then .done else .writeLog 0)
  else τ

/-- The log has no blocks any more. -/
def clear (σ : FsState) : FsState := { σ with log := { σ.log with lh := [] } }

end FsState

open FsState

/-- The steps of all processes, with what they show. -/
inductive LogStep (sb : Superblock) : FsState → List FsEvent → FsState → Prop
  /-- The first half of `bread`, -/
  | bget {σ : FsState} {p : Fin NPROC} {b : Nat} {i : Fin NBUF} {s : Bcache} : σ.got p = none →
      (σ.pc p = .user → σ.up = true) → Asks sb σ.log.lh (σ.pc p) b → σ.bcache.bget b = some (i, s) →
      LogStep sb σ [] { σ with bcache := s, got := Function.update σ.got p (some i) }
  /-- and the second. -/
  | breadLock {σ : FsState} {p : Fin NPROC} {i : Fin NBUF} : σ.got p = some i → (σ.bcache.buf i).lock = none →
      LogStep sb σ [] ({ σ.setBuf i (breadLock σ.disk p (σ.bcache.buf i)) with
        got := Function.update σ.got p none }.goto p ((σ.pc p).next i))
  /-- The file system looks at a buffer, -/
  | read {σ : FsState} {p : Fin NPROC} {i : Fin NBUF} : σ.Runs p → (σ.bcache.buf i).lock = some p →
      sb.IsData (σ.bcache.buf i).blockno →
      LogStep sb σ [.read p (σ.bcache.buf i).blockno (σ.bcache.buf i).data] σ
  /-- and gives it back. -/
  | brelse {σ : FsState} {p : Fin NPROC} {i : Fin NBUF} : σ.Runs p → (σ.bcache.buf i).lock = some p →
      LogStep sb σ [] { σ with bcache := σ.bcache.brelse i }
  | beginOp {σ : FsState} {p : Fin NPROC} : σ.Runs p → σ.op p = none → σ.Admits →
      LogStep sb σ [.begin p] (σ.beginOp p)
  | logWrite {σ : FsState} {p : Fin NPROC} {i : Fin NBUF} {bs : Finset Nat} (d : Block) : σ.Runs p →
      (σ.bcache.buf i).lock = some p → σ.op p = some bs → sb.IsData (σ.bcache.buf i).blockno → ¬ σ.TooBig sb →
      LogStep sb σ [.write p (σ.bcache.buf i).blockno d] (σ.logWrite p bs i d)
  | endOp {σ : FsState} {p : Fin NPROC} {bs : Finset Nat} : σ.Runs p → σ.op p = some bs →
      σ.log.committing = false → LogStep sb σ [.finish p] (σ.endOp p)
  /-- `write_log`. -/
  | writeLogEnd {σ : FsState} {p : Fin NPROC} {tail : Nat} : σ.pc p = .writeLog tail → ¬ tail < σ.log.lh.length →
      σ.got p = none → LogStep sb σ [] (σ.goto p .writeHead)
  | writeLog {σ : FsState} {p : Fin NPROC} {tail : Nat} {dst src : Fin NBUF} : σ.pc p = .writeLogCopy tail dst src →
      LogStep sb σ [] ((σ.setBuf dst (bwrite σ.disk (σ.bcache.buf dst) (σ.bcache.buf src).data)).goto p
        (.brelse [src, dst] (.writeLog (tail + 1))))
  /-- `write_head`: the commit. -/
  | writeHead {σ : FsState} {p : Fin NPROC} {i : Fin NBUF} : σ.pc p = .writeHeadCopy i →
      LogStep sb σ [] ((σ.setBuf i (bwrite σ.disk (σ.bcache.buf i)
        (writeHead σ.log.lh (σ.bcache.buf i).data))).goto p (.brelse [i] (.install 0)))
  /-- `install_trans`. -/
  | installEnd {σ : FsState} {p : Fin NPROC} {tail : Nat} : σ.pc p = .install tail → ¬ tail < σ.log.lh.length →
      σ.got p = none → LogStep sb σ [] (σ.clear.goto p .clearHead)
  | install {σ : FsState} {p : Fin NPROC} {tail : Nat} {lbuf dbuf : Fin NBUF} : σ.pc p = .installCopy tail lbuf dbuf →
      LogStep sb σ [] ((σ.setBuf dbuf (bwrite σ.disk (σ.bcache.buf dbuf) (σ.bcache.buf lbuf).data)).goto p
        (.brelse [lbuf, dbuf] (.install (tail + 1))))
  /-- `write_head`: the transaction is erased. -/
  | clearHead {σ : FsState} {p : Fin NPROC} {i : Fin NBUF} : σ.pc p = .clearHeadCopy i →
      LogStep sb σ [] ((σ.setBuf i (bwrite σ.disk (σ.bcache.buf i)
        (writeHead σ.log.lh (σ.bcache.buf i).data))).goto p (.brelse [i] .done))
  /-- `read_head`. -/
  | readHead {σ : FsState} {p : Fin NPROC} {i : Fin NBUF} : σ.pc p = .readHeadCopy i →
      LogStep sb σ [] ({ σ with log := { σ.log with lh := readHead (σ.bcache.buf i).data } }.goto p
        (.brelse [i] (.install 0)))
  | brelseNext {σ : FsState} {p : Fin NPROC} {i : Fin NBUF} {bufs : List (Fin NBUF)} {k : LogPc} :
      σ.pc p = .brelse (i :: bufs) k →
      LogStep sb σ [] ({ σ with bcache := σ.bcache.brelse i }.goto p (.brelse bufs k))
  | brelseEnd {σ : FsState} {p : Fin NPROC} {k : LogPc} : σ.pc p = .brelse [] k → LogStep sb σ [] (σ.goto p k)
  /-- `commit` returns to `end_op`, -/
  | committed {σ : FsState} {p : Fin NPROC} : σ.pc p = .done → σ.up = true →
      LogStep sb σ [.durable p] ({ σ with log := { σ.log with committing := false } }.goto p .user)
  /-- and `recover_from_log` to `initlog`. -/
  | recovered {σ : FsState} {p : Fin NPROC} : σ.pc p = .done → σ.up = false →
      LogStep sb σ [] ({ σ with up := true }.goto p .user)
  | crash {σ : FsState} : LogStep sb σ [.crash] (restart σ.disk)

/-- The runs from a start, with what they show. -/
inductive LogRun (sb : Superblock) (disk : Nat → Block) : List FsEvent → FsState → Prop
  | start : LogRun sb disk [] (restart disk)
  | step {tr tr' : List FsEvent} {σ σ' : FsState} : LogRun sb disk tr σ → LogStep sb σ tr' σ' →
      LogRun sb disk (tr ++ tr') σ'

/-- The calls in progress keep to their limit. -/
def FsState.OpsSmall (σ : FsState) : Prop := ∀ p bs, σ.op p = some bs → bs.card ≤ MAXOPBLOCKS

/-- The runs in which all calls do. -/
inductive SmallRun (sb : Superblock) (disk : Nat → Block) : List FsEvent → FsState → Prop
  | start : SmallRun sb disk [] (restart disk)
  | step {tr tr' : List FsEvent} {σ σ' : FsState} : SmallRun sb disk tr σ → LogStep sb σ tr' σ' → σ'.OpsSmall →
      SmallRun sb disk (tr ++ tr') σ'

namespace SmallRun

variable {sb : Superblock} {disk : Nat → Block} {tr : List FsEvent} {σ σ' : FsState}

theorem logRun (h : SmallRun sb disk tr σ) : LogRun sb disk tr σ := by
  induction h with
  | start => exact .start
  | step _ hs _ ih => exact ih.step hs

theorem opsSmall (h : SmallRun sb disk tr σ) : σ.OpsSmall := by
  cases h with
  | start => exact fun p bs hop => by cases hop
  | step _ _ hsmall => exact hsmall

/-- A step that shows nothing and has nothing to do with calls. -/
theorem quiet (h : SmallRun sb disk tr σ) (hs : LogStep sb σ [] σ') (hop : σ'.op = σ.op) :
    SmallRun sb disk tr σ' := by
  have hsmall : σ'.OpsSmall := by
    unfold OpsSmall
    rw [hop]
    exact h.opsSmall
  have hstep := h.step hs hsmall
  rwa [List.append_nil] at hstep

end SmallRun

end Jos.Xv6
