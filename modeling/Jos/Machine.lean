import Jos.IpcCalls
import Jos.Trap

/-!
# The machine

What can happen between two points at which nobody holds the kernel lock: a CPU in user mode stores a byte
or traps, a halted CPU takes an interrupt, a CPU that has just been started enters the scheduler. Each is
one step, as the kernel runs under the lock. `Reach` are the states that runs from power-on lead to, for
any number of CPUs and any order of their steps. A run ends when the kernel panics or stays in the monitor.

`Reach` is relative to a condition on steps. What holds in every run of the kernel as it is are facts about
`Reach sys fun _ _ => True`; where a defect of the kernel can be triggered by a step, the condition says
which.
-/

namespace Jos

open Pmap

/-! ## Steps -/

/-- What can happen next. -/
inductive Action
  /-- User code on CPU `c` stores a byte. -/
  | store (c : Nat) (va : Word) (b : BitVec 8)
  /-- User code on CPU `c` is interrupted, or traps, through `gate`. -/
  | trap (c : Nat) (gate : Gate) (faultVa input : Word) (tf : Trapframe)
  /-- The halted CPU `c` takes an interrupt through `gate`. -/
  | irq (c : Nat) (gate : Gate) (trapno : Nat)
  /-- CPU `c` enters the scheduler from `mp_main`. -/
  | start (c : Nat)

/-- The frame of a trap from user code, which runs with interrupts enabled. -/
structure UserFrame (tf : Trapframe) : Prop where
  cs : tf.cs = GD_UT ||| 3#32
  eflags : tf.eflags &&& FL_IF ≠ 0#32

/-- The frame of an interrupt in `sched_halt`. -/
def idleFrame (trapno : Nat) : Trapframe := { trapno, cs := GD_KT, eflags := FL_IF }

theorem idleFrame_cs (trapno : Nat) : (idleFrame trapno).cs &&& 3#32 = 0#32 := by
  show GD_KT &&& 3#32 = 0#32
  decide

/-- The step can happen. -/
def Enabled (sys : System) (k : Kernel) : Action → Prop
  | .store c va b => c < sys.ncpu ∧ (k.cpus c).mode = .user ∧
      storeByte k.pmap (k.cpus c).cr3 va USER_W b ≠ none
  | .trap c gate _ _ tf => c < sys.ncpu ∧ (k.cpus c).mode = .user ∧ idt tf.trapno = some gate ∧
      UserFrame tf
  | .irq c gate trapno => c < sys.ncpu ∧ (k.cpus c).mode = .idle ∧ idt trapno = some gate ∧
      trapno ≠ T_SYSCALL
  | .start c => c < sys.ncpu ∧ (k.cpus c).mode = .off

/-- What the step does. -/
def exec (k : Kernel) : Action → Except Panic Flow
  | .store c va b =>
    return .left { k with pmap := (storeByte k.pmap (k.cpus c).cr3 va USER_W b).getD k.pmap }
  | .trap c gate faultVa input tf => trap k c gate faultVa input tf
  | .irq c gate trapno => trap k c gate 0#32 0#32 (idleFrame trapno)
  | .start c => schedYield k c

/-- The states reached by runs whose steps all satisfy `P`. -/
inductive Reach (sys : System) (P : Kernel → Action → Prop) : Kernel → Prop
  | boot {k₀ k : Kernel} : I386Init sys k₀ → schedYield k₀ 0 = .ok (.left k) → Reach sys P k
  | step {k k' : Kernel} {a : Action} : Reach sys P k → Enabled sys k a → P k a →
      exec k a = .ok (.left k') → Reach sys P k'

theorem Reach.mono {sys : System} {P Q : Kernel → Action → Prop} (h : ∀ k a, P k a → Q k a)
    {k : Kernel} (hr : Reach sys P k) : Reach sys Q k := by
  induction hr with
  | boot hi hy => exact .boot hi hy
  | step _ he hP hx ih => exact .step ih he (h _ _ hP) hx

/-! ## Conditions on steps -/

/-- The page directories of environments. -/
@[irreducible]
def dirsOf (k : Kernel) : Finset Nat :=
  (Finset.range NENV).biUnion fun e => (k.envs e).envPgdir.toFinset

theorem mem_dirsOf {k : Kernel} {d : Nat} :
    d ∈ dirsOf k ↔ ∃ e < NENV, (k.envs e).envPgdir = some d := by
  unfold dirsOf
  generalize NENV = n
  simp only [Finset.mem_biUnion, Finset.mem_range, Option.mem_toFinset, Option.mem_def]

/-- The memory of the kernel with the directories of its environments. -/
def Kernel.memState (k : Kernel) : MemState := ⟨k.pmap, dirsOf k⟩

/-- There are fewer than 65535 mappings of page `p` below `UTOP`. -/
def RoomFor (k : Kernel) (p : Nat) : Prop := mappings k.memState p < 65535

/-- Some CPU other than `c` runs environment `e`. -/
def RunsElsewhere (k : Kernel) (c e : Nat) : Prop := ∃ c', c' ≠ c ∧ k.curenv c' = some e

/-- The system call that a trap frame asks for. -/
structure Call where
  syscallno : Word
  a1 : Word
  a2 : Word
  a3 : Word
  a4 : Word
  a5 : Word

/-- The arguments `trap_dispatch` takes from the registers. -/
def callOf (regs : PushRegs) : Call where
  syscallno := regs.eax
  a1 := regs.edx
  a2 := regs.ecx
  a3 := regs.ebx
  a4 := regs.edi
  a5 := regs.esi

/-- The trap frame of a system call. -/
def callFrame (call : Call) : Trapframe where
  regs := { eax := call.syscallno, edx := call.a1, ecx := call.a2, ebx := call.a3, edi := call.a4,
            esi := call.a5 }
  trapno := T_SYSCALL
  cs := GD_UT ||| 3#32
  eflags := FL_IF

/-- User code on CPU `c` makes a system call. -/
def callAction (c : Nat) (call : Call) : Action := .trap c ⟨false, 3⟩ 0#32 0#32 (callFrame call)

theorem callAction_enabled {sys : System} {k : Kernel} {c : Nat} (call : Call) (hc : c < sys.ncpu)
    (hmode : (k.cpus c).mode = .user) : Enabled sys k (callAction c call) := by
  have hgate : idt T_SYSCALL = some ⟨false, 3⟩ := by decide
  have hif : FL_IF &&& FL_IF ≠ 0#32 := by decide
  exact ⟨hc, hmode, hgate, rfl, hif⟩

def SYS_cputs : Word := 0#32
def SYS_env_destroy : Word := 3#32
def SYS_page_alloc : Word := 4#32
def SYS_page_map : Word := 5#32
def SYS_page_unmap : Word := 6#32
def SYS_exofork : Word := 7#32
def SYS_env_set_status : Word := 8#32
def SYS_yield : Word := 11#32
def SYS_ipc_try_send : Word := 12#32
def SYS_ipc_recv : Word := 13#32

/-- If the call goes on to share a page, there is room for another mapping of it. -/
structure ShareRoom (k : Kernel) (cur : Nat) (call : Call) : Prop where
  map : call.syscallno = SYS_page_map → ∀ src dst sd dd,
    PageMapArgs k cur src dst call.a1 call.a2 call.a3 call.a4 call.a5 sd dd →
      RoomFor k (ppn (pteOf k.pmap sd (PGNUM call.a2)))
  send : call.syscallno = SYS_ipc_try_send → ∀ e sd dd,
    SendPageArgs k cur e call.a1 call.a3 call.a4 sd dd →
      RoomFor k (ppn (pteOf k.pmap sd (PGNUM call.a3)))

/-- A call that keeps the memory safe: it maps no page at `UTOP` or above, and none a 65536th time. -/
structure MemSafe (k : Kernel) (cur : Nat) (call : Call) : Prop extends ShareRoom k cur call where
  alloc : call.syscallno = SYS_page_alloc →
    ¬ AllocAtUTOP k cur (.pageAlloc call.a1 call.a2 call.a3)
  below : call.syscallno = SYS_ipc_try_send → ∀ e sd dd,
    SendPageArgs k cur e call.a1 call.a3 call.a4 sd dd → (k.envs e).envIpcDstva < UTOP

/-- A call that does not change the status of an environment that another CPU runs, and does not destroy
one that has been destroyed already. -/
structure StatusSafe (k : Kernel) (c cur : Nat) (call : Call) : Prop where
  destroy : call.syscallno = SYS_env_destroy → ∀ e, envid2env k cur call.a1 true = some e →
    (k.envs e).envStatus ≠ .dying
  setStatus : call.syscallno = SYS_env_set_status →
    call.a2 = ENV_RUNNABLE ∨ call.a2 = ENV_NOT_RUNNABLE →
    ∀ e, envid2env k cur call.a1 true = some e → ¬ RunsElsewhere k c e
  send : call.syscallno = SYS_ipc_try_send → ∀ e, envid2env k cur call.a1 false = some e →
    (k.envs e).envIpcRecving = true →
    (call.a3 < UTOP → ∃ sd dd, SendPageArgs k cur e call.a1 call.a3 call.a4 sd dd) →
      ¬ RunsElsewhere k c e

/-- A step that triggers none of the defects of the system calls. -/
def Safe (k : Kernel) : Action → Prop
  | .trap c _ _ _ tf => tf.trapno = T_SYSCALL → ∀ cur, k.curenv c = some cur →
      MemSafe k cur (callOf tf.regs) ∧ StatusSafe k c cur (callOf tf.regs)
  | _ => True

end Jos
