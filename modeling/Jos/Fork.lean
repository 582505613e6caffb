import Jos.Lib.CopyOnWrite
import Jos.EnvPages
import Jos.ExcStack
import Jos.Uvpt

/-!
# `fork` with copy on write (`lib/fork.c`, `lib/pgfault.c`)

A family of environments that descend from one by `fork`. Each is in its program or at a point of `fork`, and may at
the same time be at a point of `pgfault`, which serves a fault of its last store. The points are those at which other
environments can come in between; every system call is a step of the machine of its own, and so is each byte that
`memcpy` copies.

Local variables are part of the points, but not all of them live in registers: `fork` may store to any page that it
can write to, such as its stack, at any of its points, and take faults there. A store by `set_pgfault_handler` to
`_pgfault_handler`, one by a new child to `thisenv` and the return address that `_pgfault_upcall` pushes count as
stores of the program. Stores above the stack, of `pgfault` itself, are kept apart.
-/

namespace Jos

open Pmap Kernel

/-! ## Points -/

/-- `PTE_COW`, one of the bits that are left to user code. -/
def PTE_COW : Word := 0x800#32

/-- The bit of the error code of a page fault that was a write. -/
def FEC_WR : Word := 2#32

/-- Where an environment is. `id` is the `env_id` of the child, and `pn` the number of the page at `addr`. -/
inductive ForkPoint
  /-- Not in the family. -/
  | out
  /-- A child that `parent` has not made runnable yet. In `sys_exofork` it will find the result 0. -/
  | child (parent : Nat)
  | program
  /-- In `set_pgfault_handler`, the first time. -/
  | handlerStack
  | handlerUpcall
  /-- In `fork`. -/
  | exofork
  | loop (id : Word) (pn : Nat)
  /-- In `duppage`. -/
  | duppage (id : Word) (pn : Nat)
  | share (id : Word) (pn : Nat)
  | protect (id : Word) (pn : Nat)
  | shareRead (id : Word) (pn : Nat)
  /-- After the loop. -/
  | stack (id : Word)
  | upcall (id : Word)
  | status (id : Word)
  | panicked
deriving DecidableEq

/-- Where an environment is in `pgfault`. -/
inductive FaultPoint
  | handler (addr err : Word)
  | alloc (addr : Word)
  /-- `n` bytes have been copied. -/
  | memcpy (addr : Word) (n : Nat)
  | unmap (addr : Word)
  | panicked
deriving DecidableEq

/-- The environment executes code of its own. -/
def ForkPoint.runs : ForkPoint → Bool
  | .out | .child _ | .panicked => false
  | _ => true

/-- The child that `fork` is making. -/
def ForkPoint.id : ForkPoint → Option Word
  | .loop id _ | .duppage id _ | .share id _ | .protect id _ | .shareRead id _ | .stack id | .upcall id
  | .status id => some id
  | _ => none

/-! ## The functions -/

/-- The permissions that `duppage` gives a page that can be written to, or could before an earlier `fork`. -/
def COW_PERM : Word := PTE_COW ||| PTE_U ||| PTE_P

/-- `PTE_P | PTE_U | PTE_W`. -/
def RW_PERM : Word := PTE_P ||| PTE_U ||| PTE_W

/-- `sys_page_alloc(id, va, perm)`. -/
def pageAllocCall (id va perm : Word) : Call := ⟨SYS_page_alloc, id, va, perm, 0#32, 0#32⟩

/-- `sys_page_map(src, srcva, dst, dstva, perm)`. -/
def pageMapCall (src srcva dst dstva perm : Word) : Call := ⟨SYS_page_map, src, srcva, dst, dstva, perm⟩

/-- `sys_page_unmap(id, va)`. -/
def pageUnmapCall (id va : Word) : Call := ⟨SYS_page_unmap, id, va, 0#32, 0#32, 0#32⟩

/-- `sys_exofork()`. -/
def exoforkCall : Call := ⟨SYS_exofork, 0#32, 0#32, 0#32, 0#32, 0#32⟩

def SYS_env_set_pgfault_upcall : Word := 10#32

/-- `sys_env_set_pgfault_upcall(id, func)`. -/
def upcallCall (id func : Word) : Call := ⟨SYS_env_set_pgfault_upcall, id, func, 0#32, 0#32, 0#32⟩

/-- `sys_env_set_status(id, ENV_RUNNABLE)`. -/
def statusCall (id : Word) : Call := ⟨SYS_env_set_status, id, ENV_RUNNABLE, 0#32, 0#32, 0#32⟩

/-- `uvpt[n]` as user code with page directory `d` reads it; `none` is a page fault. -/
def readPte (s : Pmap) (d n : Nat) : Option Word := loadWord s d (uvpt n) USER_R

/-- `uvpd[i]`. -/
def readPde (s : Pmap) (d i : Nat) : Option Word := loadWord s d (uvpd i) USER_R

/-- One iteration of the loop of `fork`, up to the call of `duppage`. -/
def loopBody (s : Pmap) (d : Nat) (id : Word) (pn : Nat) : Option ForkPoint :=
  if pageAddr pn < USTACKTOP then do
    let pde ← readPde s d (PDX (pageAddr pn))
    if pde &&& PTE_P = PTE_P then
      let pte ← readPte s d (PGNUM (pageAddr pn))
      if pte &&& PTE_P = PTE_P then return .duppage id pn else return .loop id (pn + 1)
    else
      return .loop id (pn + 1)
  else
    some (.stack id)

/-- The test of `duppage`. -/
def dupKind (id : Word) (pn : Nat) (pte : Word) : ForkPoint :=
  if pte &&& PTE_W ≠ 0#32 ∨ pte &&& PTE_COW ≠ 0#32 then .share id pn else .shareRead id pn

/-- The tests of `pgfault`. -/
def faultKind (addr err pte : Word) : FaultPoint :=
  if err &&& FEC_WR = 0#32 then .panicked
  else if pte &&& PTE_COW = 0#32 then .panicked
  else .alloc addr

/-- `fork` when `sys_exofork` has returned `ret`, which is not 0 for the parent. -/
def afterExofork (ret : Word) : ForkPoint :=
  if ret.toInt < 0 then .panicked else if ret = 0#32 then .program else .loop ret 0

/-- `if ((r = ...) != 0) panic(...)`. -/
def orPanic (ret : Word) (p : ForkPoint) : ForkPoint := if ret ≠ 0#32 then .panicked else p

/-! ## The system -/

/-- The machine with the points of all environments. -/
structure ForkState where
  kernel : Kernel
  point : Nat → ForkPoint
  fault : Nat → Option FaultPoint

/-- What a run shows: accesses to pages below `USTACKTOP`, by page number and offset, and children. -/
abbrev ForkEvent := Cow.Event Nat Nat (Fin PGSIZE) (BitVec 8)

/-- The offset of an address in its page. -/
def pgOff (va : Word) : Fin PGSIZE := ⟨va.toNat % PGSIZE, Nat.mod_lt _ (by decide)⟩

/-- A store to the stack or below, by the program or by `fork` while it makes a child. -/
def storeEvent (p : ForkPoint) (e : Nat) (va : Word) (b : BitVec 8) : ForkEvent :=
  match p.id with
  | none => .store e (PGNUM va) (pgOff va) b
  | some _ => .spill e (PGNUM va) (pgOff va) b

namespace ForkState

/-- The root of the family is in its program. -/
def start (k : Kernel) (root : Nat) : ForkState where
  kernel := k
  point := Function.update (fun _ => .out) root .program
  fault _ := none

/-- The machine goes to `k`. -/
def withKernel (σ : ForkState) (k : Kernel) : ForkState := { σ with kernel := k }

/-- Environment `e` goes on to point `p` while the machine goes to `k`. -/
def goto (σ : ForkState) (k : Kernel) (e : Nat) (p : ForkPoint) : ForkState :=
  { σ with kernel := k, point := Function.update σ.point e p }

/-- The same in `pgfault`. -/
def serve (σ : ForkState) (k : Kernel) (e : Nat) (p : Option FaultPoint) : ForkState :=
  { σ with kernel := k, fault := Function.update σ.fault e p }

end ForkState

/-- The machine goes from `k` to `k'` with action `a`. -/
structure Machine (sys : System) (k : Kernel) (a : Action) (k' : Kernel) : Prop where
  enabled : Enabled sys k a
  exec : exec k a = .ok (.left k')

/-- Environment `e` makes a system call, which returns `ret`. There is enough memory for it to succeed. -/
structure Calls (sys : System) (k : Kernel) (e : Nat) (call : Call) (ret : Word) (k' : Kernel) : Prop where
  machine : ∃ c a, k.curenv c = some e ∧ IsCall c call a ∧ Machine sys k a k'
  eax : (k'.envs e).envTf.regs.eax = ret
  succeeds : 0 ≤ ret.toInt

/-- Environment `e` executes user code on CPU `c`, and not `pgfault`. -/
structure Acts (σ : ForkState) (c e : Nat) : Prop where
  executes : Executes σ.kernel c e
  idle : σ.fault e = none

/-- The result of `sys_getenvid()`. -/
def ForkState.getenvid (σ : ForkState) (e : Nat) : Word := (σ.kernel.envs e).envId

/-- The page directory that CPU `c` has loaded. -/
def ForkState.dir (σ : ForkState) (c : Nat) : Nat := (σ.kernel.cpus c).cr3

/-- The steps of the family, with what they show. -/
inductive ForkStep (sys : System) : ForkState → List ForkEvent → ForkState → Prop
  /-- A load, also by `fork` itself. -/
  | load {σ : ForkState} {c e : Nat} {va : Word} {b : BitVec 8} : Acts σ c e → (σ.point e).runs = true →
      va < USTACKTOP → loadByte σ.kernel.pmap (σ.dir c) va USER_R = some b →
      ForkStep sys σ [.load e (PGNUM va) (pgOff va) b] σ
  | store {σ : ForkState} {c e : Nat} {va : Word} {b : BitVec 8} {k' : Kernel} : Acts σ c e →
      (σ.point e).runs = true → va < USTACKTOP → Machine sys σ.kernel (.store c va b) k' →
      ForkStep sys σ [storeEvent (σ.point e) e va b] (σ.withKernel k')
  /-- A store above the stack, or by somebody else. -/
  | storeAbove {σ : ForkState} {c e : Nat} {va : Word} {b : BitVec 8} {k' : Kernel} : Executes σ.kernel c e →
      ¬ va < USTACKTOP ∨ σ.point e = .out → Machine sys σ.kernel (.store c va b) k' →
      ForkStep sys σ [] (σ.withKernel k')
  /-- Interrupts, and system calls that matter to nobody. -/
  | quiet {σ : ForkState} {a : Action} {k' : Kernel} : Machine sys σ.kernel a k' → Quiet σ.kernel a →
      ForkStep sys σ [] (σ.withKernel k')
  /-- A store to a page that is mapped faults, and the kernel enters the upcall. -/
  | fault {σ : ForkState} {c e : Nat} {gate : Gate} {va input : Word} {tf : Trapframe} {k' : Kernel} :
      Acts σ c e → (σ.point e).runs = true → va < USTACKTOP →
      translate σ.kernel.pmap (σ.dir c) va USER_R ≠ none → tf.trapno = T_PGFLT →
      Machine sys σ.kernel (.trap c gate va input tf) k' → (k'.envs e).envStatus ≠ .free →
      ForkStep sys σ [] (σ.serve k' e (some (.handler va tf.err)))
  /-- `pgfault`. -/
  | handler {σ : ForkState} {c e : Nat} {addr err pte : Word} : Executes σ.kernel c e →
      σ.fault e = some (.handler addr err) → readPte σ.kernel.pmap (σ.dir c) (PGNUM addr) = some pte →
      ForkStep sys σ [] (σ.serve σ.kernel e (some (faultKind addr err pte)))
  | alloc {σ : ForkState} {e : Nat} {addr ret : Word} {k' : Kernel} : σ.fault e = some (.alloc addr) →
      Calls sys σ.kernel e (pageAllocCall (σ.getenvid e) PFTEMP RW_PERM) ret k' →
      ForkStep sys σ [] (σ.serve k' e (some (.memcpy addr 0)))
  | memcpy {σ : ForkState} {c e n : Nat} {addr : Word} {b : BitVec 8} {k' : Kernel} : Executes σ.kernel c e →
      σ.fault e = some (.memcpy addr n) → n < PGSIZE →
      loadByte σ.kernel.pmap (σ.dir c) (ROUNDDOWN addr PGSIZE + BitVec.ofNat 32 n) USER_R = some b →
      Machine sys σ.kernel (.store c (PFTEMP + BitVec.ofNat 32 n) b) k' →
      ForkStep sys σ [] (σ.serve k' e (some (.memcpy addr (n + 1))))
  | map {σ : ForkState} {e : Nat} {addr ret : Word} {k' : Kernel} : σ.fault e = some (.memcpy addr PGSIZE) →
      Calls sys σ.kernel e (pageMapCall (σ.getenvid e) PFTEMP (σ.getenvid e) (ROUNDDOWN addr PGSIZE) RW_PERM) ret k' →
      ForkStep sys σ [] (σ.serve k' e (some (.unmap addr)))
  | unmap {σ : ForkState} {e : Nat} {addr ret : Word} {k' : Kernel} : σ.fault e = some (.unmap addr) →
      Calls sys σ.kernel e (pageUnmapCall (σ.getenvid e) PFTEMP) ret k' → ForkStep sys σ [] (σ.serve k' e none)
  /-- `fork` is called; `set_pgfault_handler` has more to do the first time. -/
  | fork {σ : ForkState} {c e : Nat} (first : Bool) : Acts σ c e → σ.point e = .program →
      ForkStep sys σ [] (σ.goto σ.kernel e (if first then .handlerStack else .exofork))
  | handlerStack {σ : ForkState} {e : Nat} {ret : Word} {k' : Kernel} : σ.fault e = none →
      σ.point e = .handlerStack → Calls sys σ.kernel e (pageAllocCall (σ.getenvid e) UXSTACKBASE PTE_SYSCALL) ret k' →
      ForkStep sys σ [] (σ.goto k' e .handlerUpcall)
  | handlerUpcall {σ : ForkState} {e : Nat} {func ret : Word} {k' : Kernel} : σ.fault e = none →
      σ.point e = .handlerUpcall → Calls sys σ.kernel e (upcallCall (σ.getenvid e) func) ret k' →
      ForkStep sys σ [] (σ.goto k' e .exofork)
  | exofork {σ : ForkState} {e : Nat} {ret : Word} {k' : Kernel} : σ.fault e = none → σ.point e = .exofork →
      Calls sys σ.kernel e exoforkCall ret k' →
      ForkStep sys σ [.fork e (ENVX ret)] ((σ.goto k' e (afterExofork ret)).goto k' (ENVX ret) (.child e))
  | loop {σ : ForkState} {c e pn : Nat} {id : Word} {p : ForkPoint} : Acts σ c e → σ.point e = .loop id pn →
      loopBody σ.kernel.pmap (σ.dir c) id pn = some p → ForkStep sys σ [] (σ.goto σ.kernel e p)
  | duppage {σ : ForkState} {c e pn : Nat} {id pte : Word} : Acts σ c e → σ.point e = .duppage id pn →
      readPte σ.kernel.pmap (σ.dir c) pn = some pte → ForkStep sys σ [] (σ.goto σ.kernel e (dupKind id pn pte))
  | share {σ : ForkState} {e pn : Nat} {id ret : Word} {k' : Kernel} : σ.fault e = none → σ.point e = .share id pn →
      Calls sys σ.kernel e (pageMapCall (σ.getenvid e) (pageAddr pn) id (pageAddr pn) COW_PERM) ret k' →
      ForkStep sys σ [] (σ.goto k' e (orPanic ret (.protect id pn)))
  | protect {σ : ForkState} {e pn : Nat} {id ret : Word} {k' : Kernel} : σ.fault e = none →
      σ.point e = .protect id pn →
      Calls sys σ.kernel e (pageMapCall (σ.getenvid e) (pageAddr pn) (σ.getenvid e) (pageAddr pn) COW_PERM) ret k' →
      ForkStep sys σ [] (σ.goto k' e (orPanic ret (.loop id (pn + 1))))
  | shareRead {σ : ForkState} {e pn : Nat} {id ret : Word} {k' : Kernel} : σ.fault e = none →
      σ.point e = .shareRead id pn →
      Calls sys σ.kernel e (pageMapCall (σ.getenvid e) (pageAddr pn) id (pageAddr pn) (PTE_U ||| PTE_P)) ret k' →
      ForkStep sys σ [] (σ.goto k' e (orPanic ret (.loop id (pn + 1))))
  | stack {σ : ForkState} {e : Nat} {id ret : Word} {k' : Kernel} : σ.fault e = none → σ.point e = .stack id →
      Calls sys σ.kernel e (pageAllocCall id UXSTACKBASE RW_PERM) ret k' →
      ForkStep sys σ [] (σ.goto k' e (orPanic ret (.upcall id)))
  | upcall {σ : ForkState} {e : Nat} {id func ret : Word} {k' : Kernel} : σ.fault e = none →
      σ.point e = .upcall id → Calls sys σ.kernel e (upcallCall id func) ret k' →
      ForkStep sys σ [] (σ.goto k' e (orPanic ret (.status id)))
  | status {σ : ForkState} {e : Nat} {id ret : Word} {k' : Kernel} : σ.fault e = none → σ.point e = .status id →
      Calls sys σ.kernel e (statusCall id) ret k' →
      ForkStep sys σ [.ready e (ENVX id)] ((σ.goto k' e (orPanic ret .program)).goto k' (ENVX id) .program)

/-- A state of the machine from which a family can be followed: the pages of `root` below `USTACKTOP` are each mapped
once, and it has mapped none at `PFTEMP`. -/
structure ForkStart (k : Kernel) (root : Nat) : Prop where
  live : Live k root
  undestroyed : (k.envs root).envStatus ≠ .dying
  once : ∀ v, v < PGNUM USTACKTOP → present (k.pte root v) → ∀ e' v', v' < NUVPN → present (k.pte e' v') →
    ppn (k.pte e' v') = ppn (k.pte root v) → e' = root ∧ v' = v
  pftemp : ¬ present (k.pte root (PGNUM PFTEMP))

/-- The runs of the family of `root`, with what they show. -/
inductive ForkRun (sys : System) (k : Kernel) (root : Nat) : List ForkEvent → ForkState → Prop
  | start : ForkRun sys k root [] (.start k root)
  | step {tr tr' : List ForkEvent} {σ σ' : ForkState} : ForkRun sys k root tr σ → ForkStep sys σ tr' σ' →
      ForkRun sys k root (tr ++ tr') σ'

end Jos
