import Jos.Xv6.Dup2

/-!
# The process table of xv6 (`proc.c`)

`fork`, `exit`, `wait`, `kill`, `sleep`, `wakeup` and the scheduler, for all processes at once. A step is what happens
under `ptable.lock`, or what `fork` does without it. Memory, files and the rest of a process are left out; `fork` may
fail where it allocates memory, and processes may sleep for other reasons anywhere outside of `fork` and `wait`.

`pid` is an `int` of which `nextpid` is the next. The model goes as far as that does not overflow.
-/

namespace Jos.Xv6

/-- `enum procstate`. -/
inductive ProcState
  | UNUSED
  | EMBRYO
  | SLEEPING
  | RUNNABLE
  | RUNNING
  | ZOMBIE
deriving DecidableEq

/-- What a process sleeps on: in `wait` the address of its own entry, else something that has nothing to do with the
table. -/
inductive ProcChan
  | proc (p : Fin NPROC)
  | other (c : Nat)
deriving DecidableEq

/-- The fields of `struct proc` that the table is about. -/
structure ProcEntry where
  state : ProcState
  pid : Nat
  parent : Option (Fin NPROC)
  chan : Option ProcChan
  killed : Bool

/-- Where a process is. -/
inductive ProcPc
  | user
  /-- In `fork`, with a new process that it has allocated, -/
  | fork (np : Fin NPROC)
  /-- and has copied itself to. -/
  | forked (np : Fin NPROC)
  /-- In `exit`, before it takes the lock. -/
  | exit
  /-- In `wait`, about to look for zombies. -/
  | wait
deriving DecidableEq

/-- The table, where its processes are, and the next pid. -/
structure PtState where
  proc : Fin NPROC → ProcEntry
  pc : Fin NPROC → ProcPc
  nextpid : Nat

/-- What a run shows: the results of `fork` and `wait`, who exits, and who is killed, with the pids. -/
inductive PtEvent
  | fork (k : Nat)
  | forkFails (k : Nat)
  | exit (k : Nat)
  | wait (k : Nat)
  | kill (k : Nat)
deriving DecidableEq

/-- The largest `int`. -/
abbrev INT_MAX : Nat := 2 ^ 31 - 1

/-- The process that `userinit` makes: it takes the first entry. -/
abbrev initproc : Fin NPROC := ⟨0, Nat.succ_pos 63⟩

namespace PtState

/-- After `userinit`. -/
def userinit : PtState where
  proc p :=
    if p = initproc then ⟨.RUNNABLE, 1, none, none, false⟩ else ⟨.UNUSED, 0, none, none, false⟩
  pc _ := .user
  nextpid := 2

def set (σ : PtState) (p : Fin NPROC) (e : ProcEntry) : PtState := { σ with proc := Function.update σ.proc p e }

def setState (σ : PtState) (p : Fin NPROC) (s : ProcState) : PtState := σ.set p { σ.proc p with state := s }

def goto (σ : PtState) (p : Fin NPROC) (pc : ProcPc) : PtState := { σ with pc := Function.update σ.pc p pc }

/-- Wake up all processes sleeping on `c`. -/
def wakeup1 (σ : PtState) (c : ProcChan) : PtState :=
  { σ with proc := fun p =>
      if (σ.proc p).state = .SLEEPING ∧ (σ.proc p).chan = some c then { σ.proc p with state := .RUNNABLE }
      else σ.proc p }

/-- Go to sleep. -/
def sleep (σ : PtState) (p : Fin NPROC) (c : ProcChan) : PtState :=
  σ.set p { σ.proc p with state := .SLEEPING, chan := some c }

/-- The first entry that is not in use. -/
def unused (σ : PtState) : Option (Fin NPROC) := (List.finRange NPROC).find? fun p => (σ.proc p).state = .UNUSED

def allocproc (σ : PtState) (np : Fin NPROC) : PtState :=
  { σ.set np { σ.proc np with state := .EMBRYO, pid := σ.nextpid } with nextpid := σ.nextpid + 1 }

/-- Pass an abandoned child to init: the body of the loop in `exit`. -/
def passChild (curproc : Fin NPROC) (σ : PtState) (p : Fin NPROC) : PtState :=
  if (σ.proc p).parent = some curproc then
    let τ := σ.set p { σ.proc p with parent := some initproc }
    if (σ.proc p).state = .ZOMBIE then τ.wakeup1 (.proc initproc) else τ
  else σ

/-- `exit`, from where it takes the lock. -/
def exit (σ : PtState) (curproc : Fin NPROC) : PtState :=
  let σ := match (σ.proc curproc).parent with
    | some p => σ.wakeup1 (.proc p)
    | none => σ
  let σ := (List.finRange NPROC).foldl (passChild curproc) σ
  σ.setState curproc .ZOMBIE

/-- The first child that has exited. -/
def zombie (σ : PtState) (curproc : Fin NPROC) : Option (Fin NPROC) :=
  (List.finRange NPROC).find? fun p => (σ.proc p).parent = some curproc ∧ (σ.proc p).state = .ZOMBIE

/-- `havekids`. -/
def HaveKids (σ : PtState) (curproc : Fin NPROC) : Prop := ∃ p, (σ.proc p).parent = some curproc

instance (σ : PtState) (curproc : Fin NPROC) : Decidable (σ.HaveKids curproc) := inferInstanceAs (Decidable (∃ _, _))

/-- What `wait` does to a child that it has found. -/
def reap (σ : PtState) (p : Fin NPROC) : PtState :=
  σ.set p { σ.proc p with pid := 0, parent := none, killed := false, state := .UNUSED }

/-- The entry that `kill` finds. -/
def withPid (σ : PtState) (pid : Nat) : Option (Fin NPROC) :=
  (List.finRange NPROC).find? fun p => (σ.proc p).pid = pid

/-- `kill`, on the entry that it has found. -/
def kill (σ : PtState) (p : Fin NPROC) : PtState :=
  σ.set p { σ.proc p with
    killed := true
    state := if (σ.proc p).state = .SLEEPING then .RUNNABLE else (σ.proc p).state }

/-- The process executes code outside of `fork`, `exit` and `wait`. -/
def RunsUser (σ : PtState) (p : Fin NPROC) : Prop := (σ.proc p).state = .RUNNING ∧ σ.pc p = .user

end PtState

open PtState

/-- The steps, with what they show. -/
inductive PtStep : PtState → List PtEvent → PtState → Prop
  | scheduler {σ : PtState} {p : Fin NPROC} : (σ.proc p).state = .RUNNABLE → PtStep σ [] (σ.setState p .RUNNING)
  | yield {σ : PtState} {p : Fin NPROC} : (σ.proc p).state = .RUNNING → PtStep σ [] (σ.setState p .RUNNABLE)
  | sleep {σ : PtState} {p : Fin NPROC} (c : Nat) : (σ.proc p).state = .RUNNING → σ.pc p = .user ∨ σ.pc p = .exit →
      PtStep σ [] (σ.sleep p (.other c))
  | wakeup {σ : PtState} (c : Nat) : PtStep σ [] (σ.wakeup1 (.other c))
  /-- `fork`. -/
  | allocproc {σ : PtState} {p np : Fin NPROC} : σ.RunsUser p → σ.unused = some np → σ.nextpid < INT_MAX →
      PtStep σ [] ((σ.allocproc np).goto p (.fork np))
  | forkFails {σ : PtState} {p np : Fin NPROC} : (σ.proc p).state = .RUNNING → σ.pc p = .fork np →
      PtStep σ [.forkFails (σ.proc np).pid] ((σ.setState np .UNUSED).goto p .user)
  | forkCopy {σ : PtState} {p np : Fin NPROC} : (σ.proc p).state = .RUNNING → σ.pc p = .fork np →
      PtStep σ [] ((σ.set np { σ.proc np with parent := some p }).goto p (.forked np))
  | fork {σ : PtState} {p np : Fin NPROC} : (σ.proc p).state = .RUNNING → σ.pc p = .forked np →
      PtStep σ [.fork (σ.proc np).pid] (((σ.setState np .RUNNABLE).goto np .user).goto p .user)
  /-- `exit`; init does not return from the call. -/
  | exitCall {σ : PtState} {p : Fin NPROC} : σ.RunsUser p → p ≠ initproc → PtStep σ [] (σ.goto p .exit)
  | exit {σ : PtState} {p : Fin NPROC} : (σ.proc p).state = .RUNNING → σ.pc p = .exit →
      PtStep σ [.exit (σ.proc p).pid] (σ.exit p)
  /-- `wait`. -/
  | waitCall {σ : PtState} {p : Fin NPROC} : σ.RunsUser p → PtStep σ [] (σ.goto p .wait)
  | wait {σ : PtState} {p q : Fin NPROC} : (σ.proc p).state = .RUNNING → σ.pc p = .wait → σ.zombie p = some q →
      PtStep σ [.wait (σ.proc q).pid] ((σ.reap q).goto p .user)
  | waitFails {σ : PtState} {p : Fin NPROC} : (σ.proc p).state = .RUNNING → σ.pc p = .wait → σ.zombie p = none →
      ¬ σ.HaveKids p ∨ (σ.proc p).killed = true → PtStep σ [] (σ.goto p .user)
  | waitSleep {σ : PtState} {p : Fin NPROC} : (σ.proc p).state = .RUNNING → σ.pc p = .wait → σ.zombie p = none →
      σ.HaveKids p → (σ.proc p).killed = false → PtStep σ [] (σ.sleep p (.proc p))
  /-- `kill`, and a trap of a process that misbehaves. -/
  | kill {σ : PtState} {pid : Nat} {p : Fin NPROC} : σ.withPid pid = some p → PtStep σ [.kill pid] (σ.kill p)
  | trap {σ : PtState} {p : Fin NPROC} : σ.RunsUser p →
      PtStep σ [.kill (σ.proc p).pid] (σ.set p { σ.proc p with killed := true })

/-- The runs from boot, with what they show. The first process counts as one that was forked. -/
inductive PtRun : List PtEvent → PtState → Prop
  | start : PtRun [.fork 1] userinit
  | step {tr tr' : List PtEvent} {σ σ' : PtState} : PtRun tr σ → PtStep σ tr' σ' → PtRun (tr ++ tr') σ'

end Jos.Xv6
