import Jos.Lib.BoundedStream
import Jos.Lib.RefCount
import Jos.Xv6.Dup2

/-!
# Pipes of xv6 (`pipe.c`)

A pipe, the two open files through which it is used, and all processes that have descriptors for them. `piperead` and
`pipewrite` hold the lock of the pipe except while they sleep; a process that `wakeup` has made runnable takes the
lock again and looks again. `kill` may come between any two steps, as it takes no lock of the pipe: also between the
test of `killed` and `sleep`.

`pipeclose` is called when the last descriptor for a side is gone. The second of the two frees the page.
-/

namespace Jos.Xv6

abbrev PIPESIZE : Nat := 512

/-- What processes sleep on: `&p->nread` and `&p->nwrite`. -/
inductive PipeChan
  | nread
  | nwrite
deriving DecidableEq

/-- Where a process is. `m` is what `pipewrite` has written so far and `rest` what it has not, `n` what `piperead` is
to read and `i` what it has. A side of the pipe is `true` for the writers and `false` for the readers. -/
inductive PipePc
  /-- Outside of the pipe. -/
  | user
  /-- In `pipewrite`: about to take the lock, perhaps after sleeping, -/
  | writeLock (rest : List (BitVec 8)) (m : Nat)
  /-- in the loop, -/
  | writing (rest : List (BitVec 8)) (m : Nat)
  /-- about to sleep. -/
  | writeSleep (rest : List (BitVec 8)) (m : Nat)
  /-- In `piperead`: about to take the lock, perhaps after sleeping, -/
  | readLock (n : Nat)
  /-- in the first loop, -/
  | readWait (n : Nat)
  /-- about to sleep, -/
  | readSleep (n : Nat)
  /-- in the second loop. -/
  | readCopy (n i : Nat)
  /-- About to call `pipeclose`. -/
  | closing (side : Bool)
  /-- In `pipeclose`, about to call `kfree`. -/
  | kfree

/-- The pipe, whose `readopen` and `writeopen` are the `isOpen` of its sides; the processes, with what they sleep on;
the descriptors, and the reference counts of the files that they are for. -/
structure PipeState where
  pipe : CountingRing (BitVec 8) PIPESIZE 32
  isOpen : Bool → Bool
  lock : Option (Fin NPROC)
  freed : Bool
  pc : Fin NPROC → PipePc
  chan : Fin NPROC → Option PipeChan
  killed : Fin NPROC → Bool
  ofile : Fin NPROC × Fin NOFILE → Option Bool
  ref : Bool → Nat

/-- What a run shows. -/
abbrev PipeEvent := BoundedStream.Event (Fin NPROC) (BitVec 8)

namespace PipeState

/-- After `pipealloc` and the `fdalloc`s of `sys_pipe`: the page has what was in it before. -/
def pipealloc (data : Fin PIPESIZE → BitVec 8) (killed : Fin NPROC → Bool) (p : Fin NPROC) (fd₀ fd₁ : Fin NOFILE) :
    PipeState where
  pipe := ⟨data, 0#32, 0#32⟩
  isOpen _ := true
  lock := none
  freed := false
  pc _ := .user
  chan _ := none
  killed := killed
  ofile := Function.update (Function.update (fun _ => none) (p, fd₀) (some false)) (p, fd₁) (some true)
  ref _ := 1

def goto (σ : PipeState) (p : Fin NPROC) (pc : PipePc) : PipeState := { σ with pc := Function.update σ.pc p pc }

/-- `wakeup`. -/
def wakeup (σ : PipeState) (c : PipeChan) : PipeState :=
  { σ with chan := fun p => if σ.chan p = some c then none else σ.chan p }

def release (σ : PipeState) : PipeState := { σ with lock := none }

/-- `sleep`, until another process calls `wakeup`. -/
def sleep (σ : PipeState) (p : Fin NPROC) (c : PipeChan) : PipeState :=
  { σ with lock := none, chan := Function.update σ.chan p (some c) }

/-- A side of the pipe is closed, and the other is woken. -/
def pipeclose (σ : PipeState) (side : Bool) : PipeState :=
  { σ with isOpen := Function.update σ.isOpen side false }.wakeup (if side then .nread else .nwrite)

/-- A descriptor is for a side. -/
def dup (σ : PipeState) (q : Fin NPROC × Fin NOFILE) (side : Bool) : PipeState :=
  { σ with
    ofile := Function.update σ.ofile q (some side)
    ref := Function.update σ.ref side (σ.ref side + 1) }

def close (σ : PipeState) (q : Fin NPROC × Fin NOFILE) (side : Bool) : PipeState :=
  { σ with
    ofile := Function.update σ.ofile q none
    ref := Function.update σ.ref side (σ.ref side - 1) }

end PipeState

open PipeState

/-- The steps of all processes, with what they show. -/
inductive PipeStep : PipeState → List PipeEvent → PipeState → Prop
  /-- `filewrite` and `fileread`. -/
  | filewrite {σ : PipeState} {p : Fin NPROC} {fd : Fin NOFILE} (addr : List (BitVec 8)) : σ.pc p = .user →
      σ.ofile (p, fd) = some true → PipeStep σ [] (σ.goto p (.writeLock addr 0))
  | fileread {σ : PipeState} {p : Fin NPROC} {fd : Fin NOFILE} (n : Nat) : σ.pc p = .user →
      σ.ofile (p, fd) = some false → PipeStep σ [] (σ.goto p (.readLock n))
  /-- `pipewrite`. -/
  | writeLock {σ : PipeState} {p : Fin NPROC} {rest : List (BitVec 8)} {m : Nat} : σ.pc p = .writeLock rest m →
      σ.chan p = none → σ.lock = none → PipeStep σ [] ({ σ with lock := some p }.goto p (.writing rest m))
  | put {σ : PipeState} {p : Fin NPROC} {a : BitVec 8} {rest : List (BitVec 8)} {m : Nat} :
      σ.pc p = .writing (a :: rest) m → ¬ σ.pipe.Full →
      PipeStep σ [.put p a] ({ σ with pipe := σ.pipe.put a }.goto p (.writing rest (m + 1)))
  | broken {σ : PipeState} {p : Fin NPROC} {a : BitVec 8} {rest : List (BitVec 8)} {m : Nat} :
      σ.pc p = .writing (a :: rest) m → σ.pipe.Full → σ.isOpen false = false →
      PipeStep σ [.broken p] (σ.release.goto p .user)
  | writeKilled {σ : PipeState} {p : Fin NPROC} {a : BitVec 8} {rest : List (BitVec 8)} {m : Nat} :
      σ.pc p = .writing (a :: rest) m → σ.pipe.Full → σ.killed p = true →
      PipeStep σ [.interrupted p true] (σ.release.goto p .user)
  | full {σ : PipeState} {p : Fin NPROC} {a : BitVec 8} {rest : List (BitVec 8)} {m : Nat} :
      σ.pc p = .writing (a :: rest) m → σ.pipe.Full → σ.isOpen false = true → σ.killed p = false →
      PipeStep σ [] ((σ.wakeup .nread).goto p (.writeSleep (a :: rest) m))
  | writeSleep {σ : PipeState} {p : Fin NPROC} {rest : List (BitVec 8)} {m : Nat} : σ.pc p = .writeSleep rest m →
      PipeStep σ [] ((σ.sleep p .nwrite).goto p (.writeLock rest m))
  | written {σ : PipeState} {p : Fin NPROC} {m : Nat} : σ.pc p = .writing [] m →
      PipeStep σ [] ((σ.wakeup .nread).release.goto p .user)
  /-- `piperead`. -/
  | readLock {σ : PipeState} {p : Fin NPROC} {n : Nat} : σ.pc p = .readLock n → σ.chan p = none → σ.lock = none →
      PipeStep σ [] ({ σ with lock := some p }.goto p (.readWait n))
  | readKilled {σ : PipeState} {p : Fin NPROC} {n : Nat} : σ.pc p = .readWait n → σ.pipe.Empty →
      σ.isOpen true = true → σ.killed p = true → PipeStep σ [.interrupted p false] (σ.release.goto p .user)
  | empty {σ : PipeState} {p : Fin NPROC} {n : Nat} : σ.pc p = .readWait n → σ.pipe.Empty → σ.isOpen true = true →
      σ.killed p = false → PipeStep σ [] (σ.goto p (.readSleep n))
  | readSleep {σ : PipeState} {p : Fin NPROC} {n : Nat} : σ.pc p = .readSleep n →
      PipeStep σ [] ((σ.sleep p .nread).goto p (.readLock n))
  | readCopy {σ : PipeState} {p : Fin NPROC} {n : Nat} : σ.pc p = .readWait n →
      ¬ (σ.pipe.Empty ∧ σ.isOpen true = true) → PipeStep σ [] (σ.goto p (.readCopy n 0))
  | get {σ : PipeState} {p : Fin NPROC} {n i : Nat} : σ.pc p = .readCopy n i → i < n → ¬ σ.pipe.Empty →
      PipeStep σ [.get p σ.pipe.head] ({ σ with pipe := σ.pipe.skip }.goto p (.readCopy n (i + 1)))
  | read {σ : PipeState} {p : Fin NPROC} {n i : Nat} : σ.pc p = .readCopy n i → ¬ (i < n ∧ ¬ σ.pipe.Empty) →
      PipeStep σ (if i = 0 ∧ 0 < n then [.eof p] else []) ((σ.wakeup .nwrite).release.goto p .user)
  /-- `filedup`, for the process itself or a child. -/
  | dup {σ : PipeState} {p : Fin NPROC} {fd : Fin NOFILE} {q : Fin NPROC × Fin NOFILE} {side : Bool} :
      σ.pc p = .user → σ.ofile (p, fd) = some side → σ.ofile q = none → PipeStep σ [] (σ.dup q side)
  /-- `fileclose`. -/
  | close {σ : PipeState} {p : Fin NPROC} {fd : Fin NOFILE} {side : Bool} : σ.pc p = .user →
      σ.ofile (p, fd) = some side → PipeStep σ []
        ((σ.close (p, fd) side).goto p (if σ.ref side - 1 > 0 then .user else .closing side))
  | pipeclose {σ : PipeState} {p : Fin NPROC} {side : Bool} : σ.pc p = .closing side → σ.lock = none →
      PipeStep σ [.close side]
        ((σ.pipeclose side).goto p (if σ.isOpen (!side) = true then .user else .kfree))
  | kfree {σ : PipeState} {p : Fin NPROC} : σ.pc p = .kfree → PipeStep σ [] ({ σ with freed := true }.goto p .user)
  /-- `kill`, and a new process in the place of one without descriptors. -/
  | kill {σ : PipeState} (p : Fin NPROC) : PipeStep σ []
      { σ with killed := Function.update σ.killed p true, chan := Function.update σ.chan p none }
  | allocproc {σ : PipeState} {p : Fin NPROC} : σ.pc p = .user → (∀ fd, σ.ofile (p, fd) = none) →
      PipeStep σ [] { σ with killed := Function.update σ.killed p false }

/-- The runs of a new pipe, with what they show. -/
inductive PipeRun : List PipeEvent → PipeState → Prop
  | start (data : Fin PIPESIZE → BitVec 8) (killed : Fin NPROC → Bool) (p : Fin NPROC) {fd₀ fd₁ : Fin NOFILE} :
      fd₀ ≠ fd₁ → PipeRun [] (pipealloc data killed p fd₀ fd₁)
  | step {tr tr' : List PipeEvent} {σ σ' : PipeState} : PipeRun tr σ → PipeStep σ tr' σ' → PipeRun (tr ++ tr') σ'

end Jos.Xv6
