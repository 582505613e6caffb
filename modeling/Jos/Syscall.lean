import Jos.Env

/-!
# System calls (`kern/syscall.c`)

`cur` is the calling environment, `curenv`, and `c` the CPU it runs on. Most calls return a value; those
that destroy the caller or give up the CPU do not return and end in a `Flow`. Errors leave the state as it
is except where the source has already changed it.
-/

namespace Jos

open Pmap

/-! ## Shared parts -/

/-- `(perm & (PTE_U | PTE_P)) == (PTE_U | PTE_P) && (perm & ~PTE_SYSCALL) == 0`, the test of `perm` that
three system calls repeat. -/
def permOk (perm : Word) : Prop :=
  perm &&& (PTE_U ||| PTE_P) = PTE_U ||| PTE_P ∧ perm &&& ~~~PTE_SYSCALL = 0#32

instance (perm : Word) : Decidable (permOk perm) := inferInstanceAs (Decidable (_ ∧ _))

/-- `va % PGSIZE == 0`. -/
def aligned (va : Word) : Prop := va.toNat % PGSIZE = 0

instance (va : Word) : Decidable (aligned va) := inferInstanceAs (Decidable (_ = _))

/-- `e->env_pgdir`, about to be dereferenced. -/
def pgdirOf (k : Kernel) (e : Nat) : Except Panic Nat :=
  match (k.envs e).envPgdir with
  | none => throw .kernelFault
  | some d => pure d

/-! ## Environments -/

/-- `sys_exofork`. -/
def sysExofork (k : Kernel) (cur : Nat) : Except Panic (Int × Kernel) := do
  match ← envAlloc k (k.envs cur).envId with
  | (.error _, _) => throw .envAlloc
  | (.ok e, k) =>
    let tf := (k.envs cur).envTf
    let k := k.setEnv e { k.envs e with
      envStatus := .notRunnable
      envTf := { tf with regs := { tf.regs with eax := 0#32 } } }
    return ((k.envs e).envId.toInt, k)

/-- `sys_env_set_status`. -/
def sysEnvSetStatus (k : Kernel) (cur : Nat) (envid status : Word) : Int × Kernel :=
  match envid2env k cur envid true with
  | none => (-E_BAD_ENV, k)
  | some e =>
    if status = ENV_RUNNABLE then (0, k.setStatus e .runnable)
    else if status = ENV_NOT_RUNNABLE then (0, k.setStatus e .notRunnable)
    else (-E_INVAL, k)

/-- `sys_env_set_pgfault_upcall`. -/
def sysEnvSetPgfaultUpcall (k : Kernel) (cur : Nat) (envid func : Word) : Int × Kernel :=
  match envid2env k cur envid true with
  | none => (-E_BAD_ENV, k)
  | some e => (0, k.setEnv e { k.envs e with envPgfaultUpcall := func })

/-- `sys_env_destroy`. -/
def sysEnvDestroy (k : Kernel) (c cur : Nat) (envid : Word) : Except Panic Flow :=
  match envid2env k cur envid true with
  | none => return .ret (-E_BAD_ENV) k
  | some e => envDestroy k c e

/-! ## Memory -/

/-- `sys_page_alloc`. -/
def sysPageAlloc (k : Kernel) (cur : Nat) (envid va perm : Word) : Except Panic (Int × Kernel) := do
  match envid2env k cur envid true with
  | none => return (-E_BAD_ENV, k)
  | some e =>
    if UTOP < va ∨ ¬ aligned va then
      return (-E_INVAL, k)
    else if ¬ permOk perm then
      return (-E_INVAL, k)
    else
      match ← pageAlloc k.pmap true with
      | (none, pmap) => return (-E_NO_MEM, { k with pmap })
      | (some pp, pmap) =>
        let pgdir ← pgdirOf k e
        let (r, pmap) ← pageInsert pmap pgdir pp va perm
        if r ≠ 0 then
          let pmap ← pageFree pmap pp
          return (-E_NO_MEM, { k with pmap })
        else
          return (0, { k with pmap })

/-- `sys_page_map`. -/
def sysPageMap (k : Kernel) (cur : Nat) (srcenvid srcva dstenvid dstva perm : Word) :
    Except Panic (Int × Kernel) := do
  match envid2env k cur srcenvid true, envid2env k cur dstenvid true with
  | some src, some dst =>
    if UTOP ≤ srcva ∨ ¬ aligned srcva ∨ UTOP ≤ dstva ∨ ¬ aligned dstva then
      return (-E_INVAL, k)
    else if ¬ permOk perm then
      return (-E_INVAL, k)
    else
      let srcdir ← pgdirOf k src
      match ← pageLookup k.pmap srcdir srcva with
      | none => return (-E_INVAL, k)
      | some (pp, pte) =>
        if perm &&& PTE_W ≠ 0#32 ∧ k.pmap.load pte &&& PTE_W = 0#32 then
          return (-E_INVAL, k)
        else
          let dstdir ← pgdirOf k dst
          let (r, pmap) ← pageInsert k.pmap dstdir pp dstva perm
          if r ≠ 0 then
            return (-E_NO_MEM, { k with pmap })
          else
            return (0, { k with pmap })
  | _, _ => return (-E_BAD_ENV, k)

/-- `sys_page_unmap`. -/
def sysPageUnmap (k : Kernel) (cur : Nat) (envid va : Word) : Except Panic (Int × Kernel) := do
  match envid2env k cur envid true with
  | none => return (-E_BAD_ENV, k)
  | some e =>
    if UTOP ≤ va ∨ ¬ aligned va then
      return (-E_INVAL, k)
    else
      let pgdir ← pgdirOf k e
      let pmap ← pageRemove k.pmap pgdir va
      return (0, { k with pmap })

/-! ## Messages -/

/-- The fields of the receiver `e` that a successful send sets. -/
def deliver (k : Kernel) (cur e : Nat) (value perm : Word) : Kernel :=
  let env := k.envs e
  k.setEnv e { env with
    envIpcPerm := perm
    envIpcRecving := false
    envIpcFrom := (k.envs cur).envId
    envIpcValue := value
    envStatus := .runnable
    envTf := { env.envTf with regs := { env.envTf.regs with eax := 0#32 } } }

/-- `sys_ipc_try_send`. -/
def sysIpcTrySend (k : Kernel) (cur : Nat) (envid value srcva perm : Word) :
    Except Panic (Int × Kernel) := do
  match envid2env k cur envid false with
  | none => return (-E_BAD_ENV, k)
  | some e =>
    if (k.envs e).envIpcRecving = false then
      return (-E_IPC_NOT_RECV, k)
    else if srcva < UTOP then
      if srcva ≠ ROUNDDOWN srcva PGSIZE then
        return (-E_INVAL, k)
      else if ¬ permOk perm then
        return (-E_INVAL, k)
      else
        let srcdir ← pgdirOf k cur
        match ← pageLookup k.pmap srcdir srcva with
        | none => return (-E_INVAL, k)
        | some (pp, pte) =>
          if perm &&& PTE_W ≠ 0#32 ∧ k.pmap.load pte &&& PTE_W = 0#32 then
            return (-E_INVAL, k)
          else
            let dstdir ← pgdirOf k e
            let (r, pmap) ← pageInsert k.pmap dstdir pp (k.envs e).envIpcDstva perm
            let k := { k with pmap }
            if r < 0 then
              return (-E_INVAL, k)
            else
              return (0, deliver k cur e value perm)
    else
      return (0, deliver k cur e value 0#32)

/-- `sys_ipc_recv`. -/
def sysIpcRecv (k : Kernel) (c cur : Nat) (dstva : Word) : Except Panic Flow :=
  if dstva < UTOP ∧ dstva ≠ ROUNDDOWN dstva PGSIZE then
    return .ret (-E_INVAL) k
  else
    let k := k.setEnv cur { k.envs cur with
      envIpcRecving := true
      envIpcDstva := dstva
      envStatus := .notRunnable }
    schedYield k c

/-! ## The console -/

/-- The byte the kernel reads at `va` while the directory `d` is in force; `none` is a page fault. -/
def kernByte (s : Pmap) (d : Nat) (va : Word) : Option (BitVec 8) := loadByte s d va PTE_P

/-- The loop of `vprintfmt` for `%.*s`: it reads a byte before it looks at the precision. -/
def printStr (s : Pmap) (d : Nat) : Nat → Int → Word → Except Panic Unit
  | 0, _, _ => throw .diverges
  | fuel + 1, precision, p =>
    match kernByte s d p with
    | none => throw .kernelFault
    | some ch =>
      if ch = 0#8 then
        pure ()
      else if precision < 0 then
        printStr s d fuel precision (p + 1#32)
      else if 0 ≤ precision - 1 then
        printStr s d fuel (precision - 1) (p + 1#32)
      else
        pure ()

/-- `cprintf("%.*s", len, s)`; a null pointer prints a string of the kernel. -/
def cprintfStr (s : Pmap) (d : Nat) (str len : Word) : Except Panic Unit :=
  if str = 0#32 then pure () else printStr s d 4294967296 len.toInt str

/-- `user_mem_check(e, va, len, perm) < 0`. -/
def memCheckFails (k : Kernel) (e : Nat) (va len perm : Word) : Except Panic Bool := do
  let pgdir ← pgdirOf k e
  let r ← userMemCheck k.pmap pgdir va len perm
  return decide (r ≠ .ok)

/-- The case `SYS_cputs` of `syscall`: `user_mem_assert` and `sys_cputs`. The caller checks its own memory,
so a failed check destroys `curenv` and does not return. -/
def sysCputs (k : Kernel) (c cur : Nat) (s len : Word) : Except Panic Flow := do
  if ← memCheckFails k cur s len (PTE_U ||| PTE_P ||| PTE_U) then
    envDestroy k c cur
  else if ← memCheckFails k cur s len PTE_U then
    envDestroy k c cur
  else
    cprintfStr k.pmap (k.cpus c).cr3 s len
    return .ret 0 k

/-! ## Dispatch -/

/-- A function that returns to `syscall`. -/
def Flow.ofRet (x : Int × Kernel) : Flow := .ret x.1 x.2

/-- `syscall`, with `input` the character `cons_getc` finds. Numbers without a case, such as that of
`sys_env_set_trapframe`, are invalid. -/
def syscall (k : Kernel) (c cur : Nat) (input : Word) (syscallno a1 a2 a3 a4 a5 : Word) :
    Except Panic Flow :=
  match syscallno.toNat with
  | 0 => sysCputs k c cur a1 a2
  | 1 => return .ret input.toInt k
  | 2 => return .ret (k.envs cur).envId.toInt k
  | 3 => sysEnvDestroy k c cur a1
  | 4 => Flow.ofRet <$> sysPageAlloc k cur a1 a2 a3
  | 5 => Flow.ofRet <$> sysPageMap k cur a1 a2 a3 a4 a5
  | 6 => Flow.ofRet <$> sysPageUnmap k cur a1 a2
  | 7 => Flow.ofRet <$> sysExofork k cur
  | 8 => return .ofRet (sysEnvSetStatus k cur a1 a2)
  | 10 => return .ofRet (sysEnvSetPgfaultUpcall k cur a1 a2)
  | 11 => schedYield k c
  | 12 => Flow.ofRet <$> sysIpcTrySend k cur a1 a2 a3 a4
  | 13 => sysIpcRecv k c cur a1
  | _ => return .ret (-E_INVAL) k

end Jos
