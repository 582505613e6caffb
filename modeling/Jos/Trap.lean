import Jos.Boot

/-!
# Traps (`kern/trap.c`)

The processor enters the kernel through a gate of the table that `trap_init` fills in. An interrupt gate
clears `FL_IF`, a trap gate does not, and `int` is allowed to user code only for gates of privilege level 3.
`trap` takes the big kernel lock, so one call of it, up to the point where the CPU leaves the kernel again,
is one step of the system.
-/

namespace Jos

open Pmap

/-! ## Gates -/

def T_DIVIDE : Nat := 0
def T_DEBUG : Nat := 1
def T_NMI : Nat := 2
def T_BRKPT : Nat := 3
def T_OFLOW : Nat := 4
def T_BOUND : Nat := 5
def T_ILLOP : Nat := 6
def T_DEVICE : Nat := 7
def T_DBLFLT : Nat := 8
def T_TSS : Nat := 10
def T_SEGNP : Nat := 11
def T_STACK : Nat := 12
def T_GPFLT : Nat := 13
def T_PGFLT : Nat := 14
def T_FPERR : Nat := 16
def T_ALIGN : Nat := 17
def T_MCHK : Nat := 18
def T_SIMDERR : Nat := 19
def T_SYSCALL : Nat := 48
def IRQ_OFFSET : Nat := 32
def IRQ_TIMER : Nat := 0
def IRQ_KBD : Nat := 1
def IRQ_SERIAL : Nat := 4
def IRQ_SPURIOUS : Nat := 7
def IRQ_IDE : Nat := 14
def IRQ_ERROR : Nat := 19

/-- What `SETGATE` decides: whether the gate is a trap gate, and who may use it with `int`. -/
structure Gate where
  istrap : Bool
  dpl : Nat
deriving DecidableEq

/-- The gates that `trap_init` sets. -/
def gates : List (Nat × Gate) :=
  [(T_DIVIDE, ⟨false, 0⟩), (T_DEBUG, ⟨false, 0⟩), (T_NMI, ⟨true, 0⟩), (T_BRKPT, ⟨true, 3⟩),
    (T_OFLOW, ⟨false, 0⟩), (T_BOUND, ⟨false, 0⟩), (T_ILLOP, ⟨false, 0⟩), (T_DEVICE, ⟨false, 0⟩),
    (T_DBLFLT, ⟨false, 0⟩), (T_TSS, ⟨false, 0⟩), (T_SEGNP, ⟨false, 0⟩), (T_STACK, ⟨false, 0⟩),
    (T_GPFLT, ⟨false, 0⟩), (T_PGFLT, ⟨false, 0⟩), (T_FPERR, ⟨false, 0⟩), (T_ALIGN, ⟨false, 0⟩),
    (T_MCHK, ⟨false, 0⟩), (T_SIMDERR, ⟨false, 0⟩), (T_SYSCALL, ⟨false, 3⟩),
    (IRQ_TIMER + IRQ_OFFSET, ⟨false, 0⟩), (IRQ_KBD + IRQ_OFFSET, ⟨false, 0⟩),
    (IRQ_SERIAL + IRQ_OFFSET, ⟨false, 0⟩), (IRQ_SPURIOUS + IRQ_OFFSET, ⟨false, 0⟩),
    (IRQ_IDE + IRQ_OFFSET, ⟨false, 0⟩), (IRQ_ERROR + IRQ_OFFSET, ⟨false, 0⟩)]

/-- `idt[trapno]`. -/
def idt (trapno : Nat) : Option Gate := gates.lookup trapno

/-- The flags register when the handler starts. -/
def Gate.eflags (gate : Gate) (tf : Trapframe) : Word :=
  if gate.istrap then tf.eflags else tf.eflags &&& ~~~FL_IF

/-! ## `page_fault_handler` -/

/-- The bytes of a word in memory. -/
def wordBytes (w : Word) : List (BitVec 8) := [byteOf w 0, byteOf w 1, byteOf w 2, byteOf w 3]

/-- The `struct UTrapframe` for a fault at `faultVa`. -/
def utrapframe (faultVa : Word) (tf : Trapframe) : List (BitVec 8) :=
  [faultVa, tf.err, tf.regs.edi, tf.regs.esi, tf.regs.ebp, tf.regs.oesp, tf.regs.ebx, tf.regs.edx,
    tf.regs.ecx, tf.regs.eax, tf.eip, tf.eflags, tf.esp].flatMap wordBytes

/-- `sizeof(struct UTrapframe) + sizeof(uint32_t)`. -/
def UTF_SIZE : Word := 56#32

/-- Where the frame goes: below the frame of the fault that is being handled, or at the top. -/
def utfAddr (tf : Trapframe) : Word :=
  let stacktop := if UXSTACKTOP - BitVec.ofNat 32 PGSIZE < tf.esp ∧ tf.esp < UXSTACKTOP then tf.esp
    else UXSTACKTOP
  stacktop - UTF_SIZE

/-- `page_fault_handler` on CPU `c`, with `faultVa` the contents of `CR2`. A failed `user_mem_assert` of the
faulting environment itself does not return. -/
def pageFaultHandler (k : Kernel) (c : Nat) (faultVa : Word) (tf : Trapframe) :
    Except Panic Flow := do
  if tf.cs &&& 3#32 = 0#32 then
    throw .kernelFault
  else
    match k.curenv c with
    | none => throw .kernelFault
    | some cur =>
      if (k.envs cur).envPgfaultUpcall ≠ 0#32 then
        if ← memCheckFails k cur (utfAddr tf) UTF_SIZE (PTE_U ||| PTE_W ||| PTE_U) then
          envDestroy k c cur
        else
          let pmap ← copyTo (k.cpus c).cr3 (utrapframe faultVa tf) (utfAddr tf) k.pmap
          let k := { k with pmap }
          let env := k.envs cur
          let k := k.setEnv cur { env with
            envTf := { env.envTf with eip := env.envPgfaultUpcall, esp := utfAddr tf } }
          envRun k c cur
      else
        envDestroy k c cur

/-! ## `trap` -/

/-- `e->env_tf.tf_regs.reg_eax = r`. -/
def setEax (k : Kernel) (e : Nat) (r : Int) : Kernel :=
  let env := k.envs e
  k.setEnv e { env with
    envTf := { env.envTf with regs := { env.envTf.regs with eax := BitVec.ofInt 32 r } } }

/-- The registers that carry the arguments of a system call. -/
def syscallOf (k : Kernel) (c cur : Nat) (input : Word) (regs : PushRegs) : Except Panic Flow :=
  syscall k c cur input regs.eax regs.edx regs.ecx regs.ebx regs.edi regs.esi

/-- `trap_dispatch`. No command makes the monitor return. -/
def trapDispatch (k : Kernel) (c : Nat) (faultVa input : Word) (tf : Trapframe) :
    Except Panic Flow := do
  if tf.trapno = T_PGFLT then
    pageFaultHandler k c faultVa tf
  else if tf.trapno = T_BRKPT then
    return .monitor k
  else if tf.trapno = T_SYSCALL then
    match k.curenv c with
    | none => throw .kernelFault
    | some cur =>
      match ← syscallOf k c cur input tf.regs with
      | .ret r k => return .ret 0 (setEax k cur r)
      | flow => return flow
  else if tf.trapno = IRQ_OFFSET + IRQ_SPURIOUS then
    return .ret 0 k
  else if tf.trapno = IRQ_OFFSET + IRQ_TIMER then
    schedYield k c
  else if tf.cs = GD_KT then
    throw .unhandledTrap
  else
    match k.curenv c with
    | none => throw .kernelFault
    | some cur => envDestroy k c cur

/-- The end of `trap`, when the handler has returned. -/
def trapReturn (k : Kernel) (c : Nat) : Except Panic Flow :=
  match k.curenv c with
  | some cur => if (k.envs cur).envStatus = .running then envRun k c cur else schedYield k c
  | none => schedYield k c

/-- `trap_dispatch` and the end of `trap`. -/
def trapBody (k : Kernel) (c : Nat) (faultVa input : Word) (tf : Trapframe) :
    Except Panic Flow := do
  match ← trapDispatch k c faultVa input tf with
  | .ret _ k => trapReturn k c
  | flow => return flow

/-- `trap` on CPU `c`, entered through `gate`. `faultVa` is `CR2` and `input` what the console has to offer. -/
def trap (k : Kernel) (c : Nat) (gate : Gate) (faultVa input : Word) (tf : Trapframe) :
    Except Panic Flow := do
  if gate.eflags tf &&& FL_IF ≠ 0#32 then
    throw .assertion
  else if tf.cs &&& 3#32 = 3#32 then
    match k.curenv c with
    | none => throw .assertion
    | some cur =>
      if (k.envs cur).envStatus = .dying then
        let k ← envFree k c cur
        schedYield (k.setCurenv c none) c
      else
        trapBody (k.setEnv cur { k.envs cur with envTf := tf }) c faultVa input tf
  else
    trapBody k c faultVa input tf

end Jos
