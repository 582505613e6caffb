import Jos.Access
import Jos.Allocator

/-!
# Environments and the scheduler (`kern/env.c`, `kern/sched.c`)

The state of the kernel is the state of `pmap.c` together with the `envs` array, its free list and, for
each CPU, the environment it runs, where it is and which page directory it uses. Environments are named by their index in `envs`.

A kernel entry runs under the big kernel lock and is one step. A CPU is in the kernel only while it holds
the lock; between steps it executes its environment (`user`), waits in `hlt` with `cpu_status ==
CPU_HALTED` (`idle`), or has not entered the scheduler yet (`off`). Functions that do not return to their
caller end in a `Flow` other than `ret`.

`log` is a history variable: it records the calls of `env_alloc`, `env_free`, `env_destroy` and `env_run`.
-/

namespace Jos

/-! ## Data -/

/-- `env_status`. -/
inductive EnvStatus
  | free
  | dying
  | runnable
  | running
  | notRunnable
deriving DecidableEq, Repr

/-- The values of `ENV_RUNNABLE` and `ENV_NOT_RUNNABLE` as system call arguments. -/
def ENV_RUNNABLE : Word := 2#32
def ENV_NOT_RUNNABLE : Word := 4#32

/-- `struct PushRegs`. -/
structure PushRegs where
  edi : Word := 0#32
  esi : Word := 0#32
  ebp : Word := 0#32
  oesp : Word := 0#32
  ebx : Word := 0#32
  edx : Word := 0#32
  ecx : Word := 0#32
  eax : Word := 0#32
deriving DecidableEq

/-- `struct Trapframe`. -/
structure Trapframe where
  regs : PushRegs := {}
  es : Word := 0#32
  ds : Word := 0#32
  trapno : Nat := 0
  err : Word := 0#32
  eip : Word := 0#32
  cs : Word := 0#32
  eflags : Word := 0#32
  esp : Word := 0#32
  ss : Word := 0#32
deriving DecidableEq

def GD_KT : Word := 0x08#32
def GD_UT : Word := 0x18#32
def GD_UD : Word := 0x20#32
def FL_IF : Word := 0x200#32

/-- `struct Env`. -/
structure Env where
  envTf : Trapframe := {}
  /-- Next free environment. -/
  envLink : Option Nat := none
  envId : Word := 0#32
  envParentId : Word := 0#32
  envStatus : EnvStatus := .free
  envRuns : Word := 0#32
  envCpunum : Nat := 0
  /-- The page that holds the page directory; `none` is the null pointer. -/
  envPgdir : Option Nat := none
  envPgfaultUpcall : Word := 0#32
  envIpcRecving : Bool := false
  envIpcDstva : Word := 0#32
  envIpcValue : Word := 0#32
  envIpcFrom : Word := 0#32
  envIpcPerm : Word := 0#32

/-- Where a CPU is while it does not hold the kernel lock. -/
inductive CpuMode
  | off
  | user
  | idle
deriving DecidableEq, Repr

/-- `struct CpuInfo`, and the page directory the processor uses. -/
structure Cpu where
  mode : CpuMode := .off
  cpuEnv : Option Nat := none
  cr3 : Nat := 0
deriving DecidableEq

/-- Calls recorded in the history. -/
inductive Event
  /-- `env_alloc` returned environment `e`. -/
  | alloc (e : Nat)
  /-- CPU `c` executes `env_free(e)` while the CPUs run the environments `cpuEnv`. -/
  | free (c e : Nat) (cpuEnv : Nat → Option Nat)
  /-- `env_destroy(e)`. -/
  | destroy (e : Nat)
  /-- CPU `c` executes `env_run(e)`. -/
  | run (c e : Nat)

/-- The state of the kernel. -/
@[ext]
structure Kernel where
  pmap : Pmap
  envs : Nat → Env
  envFreeList : Option Nat
  cpus : Nat → Cpu
  /-- The latest event comes first. -/
  log : List Event

namespace Kernel

/-- Change one entry of `envs`. -/
def setEnv (k : Kernel) (e : Nat) (env : Env) : Kernel :=
  { k with envs := Function.update k.envs e env }

/-- `e->env_status = st`. -/
def setStatus (k : Kernel) (e : Nat) (st : EnvStatus) : Kernel :=
  k.setEnv e { k.envs e with envStatus := st }

/-- Change the state of one CPU. -/
def setCpu (k : Kernel) (c : Nat) (cpu : Cpu) : Kernel :=
  { k with cpus := Function.update k.cpus c cpu }

/-- `curenv` on CPU `c`. -/
def curenv (k : Kernel) (c : Nat) : Option Nat := (k.cpus c).cpuEnv

/-- `curenv = e` on CPU `c`. -/
def setCurenv (k : Kernel) (c : Nat) (e : Option Nat) : Kernel :=
  k.setCpu c { k.cpus c with cpuEnv := e }

/-- Append to the history. -/
def record (k : Kernel) (ev : Event) : Kernel := { k with log := ev :: k.log }

end Kernel

/-- How a kernel function ends: it returns, the CPU leaves the kernel, or the kernel stays in the monitor
for good. -/
inductive Flow
  | ret (r : Int) (k : Kernel)
  | left (k : Kernel)
  | monitor (k : Kernel)

/-! ## `env.c` -/

/-- `ENVX(envid)`. -/
def ENVX (envid : Word) : Nat := (envid &&& 1023#32).toNat

/-- `envid2env` called by environment `cur`; `none` is `-E_BAD_ENV`. -/
def envid2env (k : Kernel) (cur : Nat) (envid : Word) (checkperm : Bool) : Option Nat :=
  if envid = 0#32 then
    some cur
  else
    let e := ENVX envid
    if (k.envs e).envStatus = .free ∨ (k.envs e).envId ≠ envid then
      none
    else if checkperm ∧ e ≠ cur ∧ (k.envs e).envParentId ≠ (k.envs cur).envId then
      none
    else
      some e

def ENVGENSHIFT : Nat := 12

/-- The identifier `env_alloc` makes for slot `e` when the last one was `old`. -/
def nextEnvId (old : Word) (e : Nat) : Word :=
  let generation := (old + 1#32 <<< ENVGENSHIFT) &&& ~~~1023#32
  let generation := if generation.toInt ≤ 0 then 1#32 <<< ENVGENSHIFT else generation
  generation ||| BitVec.ofNat 32 e

/-- The registers `env_alloc` gives a new environment. -/
def initTf : Trapframe where
  ds := GD_UD ||| 3#32
  es := GD_UD ||| 3#32
  ss := GD_UD ||| 3#32
  esp := USTACKTOP
  cs := GD_UT ||| 3#32
  eflags := FL_IF

/-- `env_alloc`: the error code or the new environment. -/
def envAlloc (k : Kernel) (parentId : Word) : Except Panic (Except Int Nat × Kernel) := do
  match k.envFreeList with
  | none => return (.error (-E_NO_FREE_ENV), k)
  | some e =>
    match ← envSetupVm k.pmap with
    | (none, pmap) => return (.error (-E_NO_MEM), { k with pmap })
    | (some pgdir, pmap) =>
      let k := { k with pmap }
      let k := k.setEnv e { k.envs e with
        envPgdir := some pgdir
        envId := nextEnvId (k.envs e).envId e
        envParentId := parentId
        envStatus := .runnable
        envRuns := 0#32
        envTf := initTf
        envPgfaultUpcall := 0#32
        envIpcRecving := false }
      let k := { k with envFreeList := (k.envs e).envLink }
      return (.ok e, k.record (.alloc e))

/-- `env_free(e)` on CPU `c`. -/
def envFree (k : Kernel) (c e : Nat) : Except Panic Kernel := do
  let k := k.record (.free c e k.curenv)
  match (k.envs e).envPgdir with
  -- the loop dereferences a null directory
  | none => throw .kernelFault
  | some pgdir =>
    let pmap ← envFreeVm k.pmap pgdir
    let k := { k with pmap }
    let k := k.setEnv e { k.envs e with
      envPgdir := none
      envStatus := .free
      envLink := k.envFreeList }
    return { k with envFreeList := some e }

/-- `env_run(e)` on CPU `c`: switches to user mode. -/
def envRun (k : Kernel) (c e : Nat) : Except Panic Flow := do
  let k := k.record (.run c e)
  let k : Kernel := match k.curenv c with
    | some cur => if (k.envs cur).envStatus = .running then k.setStatus cur .runnable else k
    | none => k
  let k := k.setCurenv c (some e)
  let k := k.setEnv e { k.envs e with
    envStatus := .running
    envRuns := (k.envs e).envRuns + 1#32 }
  match (k.envs e).envPgdir with
  | none => throw .paddr
  | some pgdir =>
    let k := k.setEnv e { k.envs e with envCpunum := c }
    return .left (k.setCpu c { k.cpus c with mode := .user, cr3 := pgdir })

/-! ## `sched.c` -/

/-- `sched_halt` on CPU `c`. -/
def schedHalt (k : Kernel) (c : Nat) : Flow :=
  if (List.range NENV).any (fun i => (k.envs i).envStatus = .runnable ∨
      (k.envs i).envStatus = .running ∨ (k.envs i).envStatus = .dying) then
    .left (k.setCpu c { mode := .idle, cpuEnv := none, cr3 := k.pmap.kernPgdir })
  else
    .monitor k

/-- Where the search of `sched_yield` starts. -/
def schedStart (k : Kernel) (c : Nat) : Nat :=
  match k.curenv c with
  | some cur => ENVX (k.envs cur).envId + 1
  | none => 0

/-- The loop of `sched_yield`: the first runnable environment from `start` on. -/
def schedPick (k : Kernel) (start : Nat) : Option Nat :=
  ((List.range NENV).find? fun i => (k.envs ((start + i) % NENV)).envStatus = .runnable).map
    fun i => (start + i) % NENV

/-- `sched_yield` on CPU `c`. -/
def schedYield (k : Kernel) (c : Nat) : Except Panic Flow :=
  match schedPick k (schedStart k c) with
  | some e => envRun k c e
  | none =>
    match k.curenv c with
    | some cur =>
      if (k.envs cur).envStatus = .running then envRun k c cur else return schedHalt k c
    | none => return schedHalt k c

/-- `env_destroy(e)` on CPU `c`. -/
def envDestroy (k : Kernel) (c e : Nat) : Except Panic Flow := do
  let k := k.record (.destroy e)
  if (k.envs e).envStatus = .running ∧ k.curenv c ≠ some e then
    return .ret 0 (k.setStatus e .dying)
  else
    let k ← envFree k c e
    if k.curenv c = some e then
      schedYield (k.setCurenv c none) c
    else
      return .ret 0 k

end Jos
